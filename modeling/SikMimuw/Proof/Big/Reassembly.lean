import SikMimuw.Lib.Window
import SikMimuw.Proof.Ahead
import SikMimuw.Proof.Big.Layout

/-!
# What the C receiver's buffer does

A `View` is what the buffer is for: the packages in order, those missing without data, and how many
blocks nothing frees any more. `Shows` says that a layout of the memory is one of that view.

* `Shows.dummy`, `Shows.discard`, `Shows.loop`: the parts of `add_to_buffor`.
* `Shows.add`, `Shows.print`: whole calls.
* `big_refines`: every run.
-/

namespace SikMimuw.Big

open Function Lts

/-- **The packages**, the greatest number of them, and the blocks that are lost. -/
structure View where
  packages : List Receiver.Package
  size : ℕ
  maxData : UInt64
  leaked : ℕ

/-- The first package without data. -/
def View.firstMissing (v : View) : Option Receiver.Package := v.packages.find? fun p => p.data = []

/-- A packet that is not the first missing one. Where the buffer is full it is lost with its two
blocks. -/
def View.insert (v : View) (num : UInt64) (data : List UInt8) : View :=
  let len := UInt64.ofNat data.length
  match v.packages.getLast? with
  | none => { v with packages := [⟨data, num⟩], size := (v.maxData / len).toNat }
  | some back =>
    if v.packages.length < v.size then
      let gap := ((num - back.num) / len).toNat - 1
      { v with packages := (v.packages ++ Receiver.missing back.num len gap ++
          [(⟨data, num⟩ : Receiver.Package)]).rtake v.size }
    else { v with leaked := v.leaked + 2 }

/-- **`add_to_buffor`.** -/
def View.add (v : View) (num : UInt64) (data : List UInt8) : View :=
  if v.firstMissing = some ⟨[], num⟩ then
    { v with packages := v.packages.map fun p : Receiver.Package =>
        if p = ⟨[], num⟩ then { p with data := data } else p }
  else v.insert num data

/-- The packets that `add_to_buffor` has a place for, and those that it drops: the loop comes to
the number before the numbers wrap. -/
def View.Accepts (len : UInt64) (v : View) (num : UInt64) : Prop :=
  v.firstMissing = some ⟨[], num⟩ ∨ ∀ back ∈ v.packages.getLast?, v.packages.length < v.size →
    back.num < num ∧ len.toNat ∣ num.toNat - back.num.toNat

instance (len : UInt64) (v : View) (num : UInt64) : Decidable (v.Accepts len num) :=
  inferInstanceAs (Decidable (_ ∨ _))

/-- **The layout is one of the view.** -/
structure Shows (len : UInt64) (m : DataHeap) (L : Arena) (v : View) : Prop where
  laid : Laid len m L v.leaked
  holes : L.elems.map (fun e => (m.heap.setElem e).package) =
    L.nodes.filter fun p => (m.heap.package p).data = 0
  packages : L.nodes.map m.view = v.packages
  size : m.heap.buffor.size.toNat = v.size
  maxData : m.heap.buffor.maxData = v.maxData
  bound : v.packages.length ≤ max 1 v.size
  ascending : Receiver.Ascending len (v.packages.map (·.num))

/-- **The allocator**: `malloc` finds a block unless none is left, and its smallest blocks have room for
an element. -/
structure Allocates (alloc : Malloc) : Prop where
  fresh : ∀ h : Heap, h.live.card + 1 < 2 ^ 64 → alloc.address h ≠ 0 ∧ alloc.address h ∉ h.live
  room : sizeofSetElem ≤ alloc.room sizeofPointer

variable {alloc : Malloc} {len x p pack num e : UInt64} {m m' : DataHeap} {h h' : Heap}
  {L : Arena} {v : View} {q r l es : List UInt64} {data : List UInt8} {back : Receiver.Package}
  {n : ℕ}

/-! ### What a view says about the memory -/

section

variable (hs : Shows len m L v) (hlen : 0 < len.toNat)

include hs in
theorem Shows.length_eq : v.packages.length = L.nodes.length := by
  rw [← hs.packages, List.length_map]

include hs hlen in
/-- The first missing package is that of the first element. -/
theorem Shows.firstMissing_eq :
    v.firstMissing = (L.elems.head?.map fun e => ⟨[], m.heap.number e⟩) := by
  have hfilter : v.packages.filter (fun p => p.data = []) =
      (L.elems.map fun e => (m.heap.setElem e).package).map m.view := by
    rw [← hs.packages, List.filter_map, hs.holes]
    congr 1
    refine List.filter_congr fun p hp => ?_
    exact decide_eq_decide.2 (hs.laid.view_data hlen (List.mem_append_left _ hp))
  unfold View.firstMissing
  rw [← List.head?_filter, hfilter, List.head?_map, List.head?_map, Option.map_map]
  refine Option.map_congr fun e he => ?_
  have hmem : (m.heap.setElem e).package ∈ L.elems.map fun e => (m.heap.setElem e).package :=
    List.mem_map.2 ⟨e, List.mem_of_mem_head? he, rfl⟩
  rw [hs.holes, List.mem_filter, decide_eq_true_eq] at hmem
  dsimp only [comp_apply, DataHeap.view]
  rw [if_pos hmem.2]
  rfl

include hs in
/-- The package of an element is a node without data. -/
theorem Shows.mem_nodes (he : e ∈ L.elems) :
    (m.heap.setElem e).package ∈ L.nodes ∧ (m.heap.package (m.heap.setElem e).package).data = 0 := by
  have hmem : (m.heap.setElem e).package ∈ L.elems.map fun e => (m.heap.setElem e).package :=
    List.mem_map_of_mem he
  rw [hs.holes, List.mem_filter, decide_eq_true_eq] at hmem
  exact hmem

include hs in
/-- **What is in use**: two blocks for every package, and those that are lost. -/
theorem Shows.used : m.heap.live.card =
    2 * v.packages.length + (L.spare.flatMap m.heap.blocks).length + v.leaked := by
  have hblocks : ∀ q : List UInt64, (q.flatMap m.heap.blocks).length +
      (q.filter fun p => (m.heap.package p).data = 0).length = 2 * q.length := by
    intro q
    induction q with
    | nil => rfl
    | cons p q ih =>
      rw [List.flatMap_cons, List.length_append, List.length_cons, Heap.blocks]
      by_cases h0 : (m.heap.package p).data = 0
      · rw [if_neg (not_not.2 h0), List.filter_cons_of_pos (by simpa using h0)]
        simp only [List.length_cons, List.length_nil]
        omega
      · rw [if_pos h0, List.filter_cons_of_neg (by simpa using h0)]
        simp only [List.length_cons, List.length_nil]
        omega
  have hb := hblocks L.nodes
  have hholes := congrArg List.length hs.holes
  rw [List.length_map] at hholes
  have hused := hs.laid.used
  rw [Arena.all, List.flatMap_append, List.length_append] at hused
  rw [hs.length_eq]
  omega

include hs in
/-- The numbers of the missing packages are among those of the buffer. -/
theorem Shows.number_le (hback : v.packages.getLast? = some back) (he : e ∈ L.elems) :
    (m.heap.number e).toNat ≤ back.num.toNat := by
  refine hs.ascending.le_last ?_ (by rw [List.getLast?_map, hback]; rfl)
  rw [← hs.packages, List.map_map]
  exact List.mem_map.2 ⟨_, (hs.mem_nodes he).1, rfl⟩

end

theorem ascending_snoc {l : List UInt64} {y z : UInt64} (h : Receiver.Ascending len l)
    (hy : l.getLast? = some y) (hz : z.toNat = y.toNat + len.toNat) :
    Receiver.Ascending len (l ++ [z]) := by
  refine List.isChain_append.2 ⟨h, List.isChain_singleton z, ?_⟩
  intro a ha b hb
  rw [hy, Option.mem_some_iff] at ha
  simp only [List.head?_cons, Option.mem_some_iff] at hb
  rw [← ha, ← hb, hz]

theorem ascending_lt {l : List UInt64} {y z : UInt64} (h : Receiver.Ascending len (y :: l))
    (hlen : 0 < len.toNat) (hz : z ∈ l) : y < z := by
  have hlt : (y :: l).IsChain fun a b => a < b := by
    refine List.IsChain.imp (fun a b hab => ?_) h
    rw [UInt64.lt_iff_toNat_lt, hab]
    omega
  have : IsTrans UInt64 fun a b => a < b := ⟨fun _ _ _ => lt_trans⟩
  exact List.rel_of_pairwise_cons (List.isChain_iff_pairwise.1 hlt) hz

theorem ascending_nodup {l : List UInt64} (h : Receiver.Ascending len l) (hlen : 0 < len.toNat) :
    l.Nodup := by
  induction l with
  | nil => exact List.nodup_nil
  | cons y l ih =>
    refine List.nodup_cons.2 ⟨fun hy => ?_, ih h.tail⟩
    exact absurd rfl (UInt64.ne_of_lt (ascending_lt h hlen hy))

/-! ### The parts of `add_to_buffor` -/

/-- **A package without data** comes behind the last one (lines 121-127). -/
theorem Shows.dummy (halloc : Allocates alloc) (hs : Shows len m ⟨x :: l, es, r⟩ v)
    (hlen : 0 < len.toNat) (hback : v.packages.getLast? = some back)
    (hroom : v.packages.length < v.size) (hwrap : back.num.toNat + len.toNat < 2 ^ 64)
    (hfree : m.heap.live.card + 3 < 2 ^ 64) :
    ∃ h' d e, addDummy alloc m.heap (back.num + len) = some h' ∧
      Shows len ⟨h', m.bytes⟩ ⟨x :: l ++ [d], es ++ [e], r⟩
        { v with packages := v.packages ++ [⟨[], back.num + len⟩] } ∧
      ∀ p ∈ r, DataHeap.view ⟨h', m.bytes⟩ p = m.view p := by
  have hnext : (back.num + len).toNat = back.num.toNat + len.toNat := by
    rw [UInt64.toNat_add, Nat.mod_eq_of_lt hwrap]
  obtain ⟨hd0, hdout⟩ := halloc.fresh m.heap (by omega)
  generalize hd : alloc.address m.heap = d at hd0 hdout
  obtain ⟨h₁, hnew, hbuffor₁, helem₁, hsame, hdata, hnum, hcard, hl₁⟩ :=
    hs.laid.new (⟨hd0, hdout, Or.inl rfl⟩ : Fresh m.heap d 0) (back.num + len)
      (fun _ _ => rfl) (fun h0 => absurd rfl h0)
  obtain ⟨h₂, hadd, hk, hl₂⟩ := hl₁.link
  have hlive : ∀ p ∈ x :: l ++ r, p ∈ m.heap.live := fun p hp => hs.laid.owns.mem_live hp
  have hnum₂ : ∀ p ∈ m.heap.live, (h₂.package p).num = (m.heap.package p).num := fun p hp => by
    rw [← hsame p hp]
    exact congrFun hk.num p
  have hdata₂ : ∀ p ∈ m.heap.live, (h₂.package p).data = (m.heap.package p).data := fun p hp => by
    rw [← hsame p hp]
    exact congrFun hk.data p
  have helem₂ : h₂.setElem = m.heap.setElem := hk.setElem.trans helem₁
  have hdn : (h₂.package d).num = back.num + len := (congrFun hk.num d).trans hnum
  -- the numbers that are missing already are less
  have hless : ∀ e ∈ es, h₂.number e < (h₂.package d).num := by
    intro e he
    have hle := hs.number_le hback he
    have hen : h₂.number e = m.heap.number e := by
      unfold Heap.number
      rw [helem₂]
      exact hnum₂ _ (hlive _ (List.mem_append_left _ (hs.mem_nodes he).1))
    rw [hdn, hen, UInt64.lt_iff_toNat_lt, hnext]
    omega
  rw [← hk.live] at hcard
  obtain ⟨h₃, hnote, hput, hl₃⟩ := hl₂.note halloc.room (halloc.fresh h₂ (by omega)) (List.mem_append_right _
    (List.mem_singleton_self d)) hless
  have hview : ∀ p ∈ x :: l ++ r, DataHeap.view ⟨h₃, m.bytes⟩ p = m.view p := fun p hp =>
    DataHeap.view_congr ((congrArg (fun f => (f p).data) hput.package).trans (hdata₂ p (hlive p hp)))
      ((congrArg (fun f => (f p).num) hput.package).trans (hnum₂ p (hlive p hp))) rfl
  have hold : ∀ e ∈ es, (h₃.setElem e).package = (m.heap.setElem e).package := fun e he => by
    have hne : e ≠ alloc.address h₂ := by
      rintro rfl
      exact (halloc.fresh h₂ (by omega)).2 (hl₂.missing.elems _ he)
    rw [hput.elem, if_neg hne, helem₂]
  have hzero : (h₂.package d).data = 0 := (congrFun hk.data d).trans hdata
  refine ⟨h₃, d, alloc.address h₂, ?_, ⟨hl₃, ?_, ?_, ?_, ?_, ?_, ?_⟩,
    fun p hp => hview p (List.mem_append_right _ hp)⟩
  · simp only [addDummy, hd, hnew, hadd, hnote, Option.bind_eq_bind, Option.bind_some]
  · -- the holes are those there were, and the new node
    have hnodes : ∀ p ∈ x :: l, (h₃.package p).data = (m.heap.package p).data := fun p hp => by
      rw [hput.package, hdata₂ p (hlive p (List.mem_append_left _ hp))]
    have hfilter : (x :: l).filter (fun p => (h₃.package p).data = 0) =
        (x :: l).filter fun p => (m.heap.package p).data = 0 :=
      List.filter_congr fun p hp => by rw [hnodes p hp]
    rw [List.map_append, List.map_congr_left hold, hs.holes, List.filter_append, hfilter]
    congr 1
    rw [List.map_singleton, hput.elem, if_pos rfl, List.filter_cons_of_pos, List.filter_nil]
    rw [hput.package, hzero]
    exact decide_eq_true rfl
  · rw [List.map_append, List.map_singleton, ← hs.packages]
    refine congrArg₂ (· ++ ·) (List.map_congr_left fun p hp =>
      hview p (List.mem_append_left _ hp)) ?_
    unfold DataHeap.view
    dsimp only
    rw [hput.package, if_pos hzero]
    exact congrArg (fun num => [(⟨[], num⟩ : Receiver.Package)]) hdn
  · have hsize : h₃.buffor.size = m.heap.buffor.size := by
      rw [hput.buffor, hk.size, hbuffor₁]
    rw [hsize]
    exact hs.size
  · rw [hput.buffor, hk.maxData, hbuffor₁]
    exact hs.maxData
  · rw [List.length_append, List.length_singleton]
    exact le_max_of_le_right hroom
  · rw [List.map_append]
    exact ascending_snoc hs.ascending (by rw [List.getLast?_map, hback]; rfl) hnext

/-- What `check_set` does for the package that `pop_from_buffor` has unlinked: the element of a
missing one is the first, and one with data has none. -/
theorem Shows.unnote (hs : Shows len m ⟨x :: l, es, r⟩ v) (hlen : 0 < len.toNat)
    (hn : es.length < n) (hk : Keeps m.heap h) (hl : Laid len ⟨h, m.bytes⟩ ⟨l, es, x :: r⟩ v.leaked) :
    ∃ y h' es', checkSet n h (h.package x).num = some (y, h') ∧
      Laid len ⟨h', m.bytes⟩ ⟨l, es', x :: r⟩ v.leaked ∧ h'.package = h.package ∧
      h'.buffor = { h.buffor with set := h'.buffor.set } ∧
      es'.map (fun e => (h'.setElem e).package) = l.filter fun p => (h'.package p).data = 0 := by
  have hfilter : l.filter (fun p => (h.package p).data = 0) =
      l.filter fun p => (m.heap.package p).data = 0 :=
    List.filter_congr fun p _ => by
      have hd : (h.package p).data = (m.heap.package p).data := congrFun hk.data p
      rw [hd]
  have hnum : ∀ e, h.number e = m.heap.number e := fun e => by
    unfold Heap.number
    rw [hk.setElem]
    exact congrFun hk.num _
  have hx : (h.package x).num = (m.heap.package x).num := congrFun hk.num x
  by_cases h0 : (m.heap.package x).data = 0
  · have hholes := hs.holes
    rw [List.filter_cons_of_pos (by simpa using h0)] at hholes
    obtain ⟨e, es', rfl, rfl, hrest⟩ := List.map_eq_cons_iff.1 hholes
    obtain ⟨h', hcheck, ht⟩ := checkSet_head hl.missing (by omega : 0 < n) rfl
    refine ⟨(h.setElem e).package, h', es', ?_, hl.unnote ht, ht.package, ht.buffor, ?_⟩
    · rw [← hk.setElem]
      exact hcheck
    · rw [ht.package, hfilter, ← hrest]
      exact List.map_congr_left fun a _ => by rw [ht.elem, hk.setElem]
  · have hholes := hs.holes
    rw [List.filter_cons_of_neg (by simpa using h0)] at hholes
    refine ⟨0, h, es, checkSet_miss hl.missing hn.le fun e he => ?_, hl, rfl, rfl, ?_⟩
    · -- the numbers behind the first are greater
      have hmem : (m.heap.setElem e).package ∈ l := by
        have hin : (m.heap.setElem e).package ∈ es.map fun e => (m.heap.setElem e).package :=
          List.mem_map_of_mem (List.mem_of_mem_head? he)
        rw [hholes] at hin
        exact List.mem_of_mem_filter hin
      have hasc := hs.ascending
      rw [← hs.packages, List.map_cons, List.map_cons] at hasc
      have hlt := ascending_lt hasc hlen (List.mem_map_of_mem (List.mem_map_of_mem hmem))
      rw [hnum, hx]
      exact (UInt64.ne_of_lt hlt).symm
    · rw [hfilter, hk.setElem]
      exact hholes

/-- **`pop_from_buffor`** takes the oldest package, and its element if it is missing. -/
theorem Shows.pop (hs : Shows len m ⟨x :: l, es, r⟩ v) (hlen : 0 < len.toNat) (hn : es.length < n) :
    ∃ h' es', popFromBuffor n m.heap = some (x, h') ∧
      Shows len ⟨h', m.bytes⟩ ⟨l, es', x :: r⟩ { v with packages := v.packages.tail } ∧
      DataHeap.view ⟨h', m.bytes⟩ = m.view := by
  obtain ⟨h₁, htake, hk, hl₁⟩ := hs.laid.take
  obtain ⟨y, h', es', hcheck, hl', hpackage, hbuffor, hholes⟩ := hs.unnote hlen hn hk hl₁
  have hview : DataHeap.view ⟨h', m.bytes⟩ = m.view := by
    rw [← view_keeps hk m.bytes]
    unfold DataHeap.view
    rw [hpackage]
  have hfill : m.heap.buffor.fill ≠ 0 := Holds.fill_ne_zero (h := m.heap.withSet 0) hs.laid.queue
  have hx : x ∈ h₁.live := by
    rw [hk.live]
    exact hs.laid.owns.mem_live (List.mem_append_left _ List.mem_cons_self)
  refine ⟨h', es', ?_, ⟨hl', hholes, ?_, ?_, ?_, ?_, ?_⟩, hview⟩
  · simp only [popFromBuffor, if_neg hfill, htake, Heap.load_eq hx, hcheck, Option.bind_eq_bind,
      Option.bind_some]
    rfl
  · rw [hview, ← hs.packages]
    rfl
  · rw [hbuffor, hk.size]
    exact hs.size
  · rw [hbuffor, hk.maxData]
    exact hs.maxData
  · rw [List.length_tail]
    exact le_trans (Nat.sub_le _ _) hs.bound
  · rw [List.map_tail]
    exact hs.ascending.tail

/-- **`remove_package`** frees a spare node. -/
theorem Shows.remove (hs : Shows len m ⟨q, es, x :: r⟩ v) :
    ∃ h', removePackage m.heap x = some h' ∧ Shows len ⟨h', m.bytes⟩ ⟨q, es, r⟩ v ∧
      DataHeap.view ⟨h', m.bytes⟩ = m.view := by
  obtain ⟨h', hremove, hbuffor, hpackage, helem, hl⟩ :=
    hs.laid.remove fun e he => (hs.mem_nodes he).1
  have hview : DataHeap.view ⟨h', m.bytes⟩ = m.view := by
    unfold DataHeap.view
    rw [hpackage]
  refine ⟨h', hremove, ⟨hl, ?_, ?_, ?_, ?_, hs.bound, hs.ascending⟩, hview⟩
  · rw [helem, hpackage]
    exact hs.holes
  · rw [hview]
    exact hs.packages
  · rw [hbuffor]
    exact hs.size
  · rw [hbuffor]
    exact hs.maxData

/-- **The oldest package is discarded** (lines 130-131). -/
theorem Shows.discard (hs : Shows len m ⟨x :: l, es, r⟩ v) (hlen : 0 < len.toNat)
    (hn : es.length < n) :
    ∃ h' es', discardFirst n m.heap = some h' ∧
      Shows len ⟨h', m.bytes⟩ ⟨l, es', r⟩ { v with packages := v.packages.tail } ∧
      DataHeap.view ⟨h', m.bytes⟩ = m.view := by
  obtain ⟨h₁, es', hpop, hs₁, hview₁⟩ := hs.pop hlen hn
  obtain ⟨h', hremove, hs', hview'⟩ := hs₁.remove
  refine ⟨h', es', ?_, hs', hview'.trans hview₁⟩
  simp only [discardFirst, hpop, Option.bind_eq_bind, Option.bind_some]
  exact hremove

/-- **A package with data** comes behind the last one. -/
theorem Shows.link (hs : Shows len m ⟨x :: l, es, pack :: r⟩ v)
    (h0 : (m.heap.package pack).data ≠ 0) (hback : v.packages.getLast? = some back)
    (hnext : (m.view pack).num.toNat = back.num.toNat + len.toNat)
    (hroom : v.packages.length < v.size) :
    ∃ h', addToBufferEnd m.heap pack = some h' ∧ Shows len ⟨h', m.bytes⟩
      ⟨x :: l ++ [pack], es, r⟩ { v with packages := v.packages ++ [m.view pack] } ∧
      DataHeap.view ⟨h', m.bytes⟩ = m.view := by
  obtain ⟨h', hadd, hk, hl⟩ := hs.laid.link
  have hdata : ∀ p, (h'.package p).data = (m.heap.package p).data := congrFun hk.data
  refine ⟨h', hadd, ⟨hl, ?_, ?_, ?_, ?_, ?_, ?_⟩, view_keeps hk _⟩
  · show es.map _ = List.filter (fun p => (h'.package p).data = 0) (x :: l ++ [pack])
    have hlast : [pack].filter (fun p => (m.heap.package p).data = 0) = [] :=
      List.filter_cons_of_neg (by simpa using h0)
    rw [hk.setElem, List.filter_congr fun p _ => by rw [hdata p], List.filter_append, hlast,
      List.append_nil]
    exact hs.holes
  · rw [view_keeps hk, List.map_append, ← hs.packages]
    rfl
  · exact (congrArg UInt64.toNat hk.size).trans hs.size
  · exact hk.maxData.trans hs.maxData
  · rw [List.length_append, List.length_singleton]
    exact le_max_of_le_right hroom
  · rw [List.map_append]
    exact ascending_snoc hs.ascending (by rw [List.getLast?_map, hback]; rfl) hnext

/-- There are no more elements than packages. -/
theorem Shows.elems_le (hs : Shows len m L v) : L.elems.length ≤ v.packages.length := by
  have hholes := congrArg List.length hs.holes
  rw [List.length_map] at hholes
  rw [hs.length_eq, hholes]
  exact List.length_filter_le _ _

/-- `packages->prev` is the node of the last package. -/
theorem Shows.last (hs : Shows len m ⟨x :: l, es, r⟩ v) (hback : v.packages.getLast? = some back) :
    ∃ first last, m.heap.load m.heap.buffor.packages = some first ∧
      m.heap.load first.prev = some last ∧ last.num = back.num := by
  have hx : m.heap.buffor.packages = x := hs.laid.queue.packages
  have hlive : ∀ p ∈ x :: l, p ∈ m.heap.live := fun p hp =>
    hs.laid.owns.mem_live (List.mem_append_left _ hp)
  have hprev : (m.heap.package x).prev ∈ (x :: l).getLast? := hs.laid.queue.ring.prev_head.2
  refine ⟨m.heap.package x, m.heap.package (m.heap.package x).prev, ?_, ?_, ?_⟩
  · rw [hx]
    exact Heap.load_eq (hlive x List.mem_cons_self)
  · exact Heap.load_eq (hlive _ (List.mem_of_getLast? hprev))
  · rw [← hs.packages, List.getLast?_map, Option.map_eq_some_iff] at hback
    obtain ⟨z, hz, rfl⟩ := hback
    rw [Option.mem_def] at hprev
    rw [hprev, Option.some.injEq] at hz
    rw [← hz]
    rfl

/-- The missing packages begin behind the back. -/
theorem missing_cons (a len : UInt64) (k : ℕ) : Receiver.missing a len (k + 1) =
    ⟨[], a + len⟩ :: Receiver.missing (a + len) len k := by
  unfold Receiver.missing
  rw [List.range_succ_eq_map, List.map_cons, List.map_map]
  have hone : UInt64.ofNat (0 + 1) * len = len := UInt64.one_mul len
  rw [hone]
  congr 1
  refine List.map_congr_left fun i _ => ?_
  dsimp only [comp_apply]
  have hsucc : UInt64.ofNat (i.succ + 1) = 1 + UInt64.ofNat (i + 1) := by
    rw [Nat.succ_eq_add_one, Nat.add_comm (i + 1) 1, UInt64.ofNat_add]
    rfl
  rw [hsucc, UInt64.add_mul, UInt64.one_mul, UInt64.add_assoc]

/-- The end of the packages when the oldest has gone to make room. -/
theorem tail_or_self {α : Type*} {l : List α} {y : α} {size : ℕ} (hroom : l.length < size) :
    (if (l ++ [y]).length = size then (l ++ [y]).tail else l ++ [y]) =
      (l ++ [y]).rtake (size - 1) := by
  have hlen : (l ++ [y]).length = l.length + 1 := by simp
  split_ifs with hfull
  · rw [List.rtake, hfull, Nat.sub_sub_self (by omega), List.drop_one]
  · rw [Window.rtake_of_length_le (by omega)]

theorem Shows.fill_eq (hs : Shows len m L v) : m.heap.buffor.fill.toNat = v.packages.length := by
  rw [hs.length_eq]
  exact hs.laid.queue.fill

/-- One iteration of the loop. -/
theorem Shows.addLoop_succ (hs : Shows len m ⟨x :: l, es, r⟩ v) {fuel : ℕ}
    (hback : v.packages.getLast? = some back) (hroom : v.packages.length < v.size) :
    addLoop alloc fuel pack num len (n + 1) m.heap =
      if back.num + len = num then addToBufferEnd m.heap pack
      else (addDummy alloc m.heap (back.num + len)).bind fun h =>
        (if h.buffor.fill = h.buffor.size then discardFirst fuel h else some h).bind fun h =>
          addLoop alloc fuel pack num len n h := by
  obtain ⟨first, back', hfirst, hlast, hnum⟩ := hs.last hback
  have hlt : m.heap.buffor.fill < m.heap.buffor.size := by
    rw [UInt64.lt_iff_toNat_lt, hs.fill_eq, hs.size]
    exact hroom
  rw [addLoop, if_pos hlt]
  simp only [hfirst, hlast, hnum, Option.bind_eq_bind, Option.bind_some]
  refine if_congr Iff.rfl rfl (Option.bind_congr fun h _ => ?_)
  split <;> rfl

/-- Where the buffer is full, the oldest package goes. -/
theorem Shows.makeRoom (hs : Shows len m ⟨x :: l, es, r⟩ v) (hlen : 0 < len.toNat)
    (hn : v.packages.length < n) :
    ∃ h' q' es', (if m.heap.buffor.fill = m.heap.buffor.size then discardFirst n m.heap
        else some m.heap) = some h' ∧
      Shows len ⟨h', m.bytes⟩ ⟨q', es', r⟩ { v with packages :=
        if v.packages.length = v.size then v.packages.tail else v.packages } ∧
      DataHeap.view ⟨h', m.bytes⟩ = m.view := by
  have hiff : m.heap.buffor.fill = m.heap.buffor.size ↔ v.packages.length = v.size := by
    rw [← UInt64.toNat_inj, hs.fill_eq, hs.size]
  by_cases hfull : v.packages.length = v.size
  · have hle := hs.elems_le
    obtain ⟨h', es', hdisc, hs', hview⟩ := hs.discard hlen (lt_of_le_of_lt hle hn)
    rw [if_pos hfull, if_pos (hiff.2 hfull)]
    exact ⟨h', l, es', hdisc, hs', hview⟩
  · rw [if_neg hfull, if_neg (mt hiff.1 hfull)]
    exact ⟨m.heap, x :: l, es, rfl, hs, rfl⟩

/-- Where there is a last package there is a first node. -/
theorem Shows.exists_cons (hs : Shows len m ⟨q, es, r⟩ v) (hback : v.packages.getLast? = some back) :
    ∃ x l, q = x :: l := by
  refine List.exists_cons_of_ne_nil fun hq => ?_
  have hz := hs.length_eq
  rw [hq, List.length_nil, List.length_eq_zero_iff] at hz
  rw [hz] at hback
  cases hback

theorem length_blocks_le (h : Heap) (q : List UInt64) : (q.flatMap h.blocks).length ≤ 2 * q.length := by
  induction q with
  | nil => exact le_rfl
  | cons p q ih =>
    have hp : (h.blocks p).length ≤ 2 := by
      unfold Heap.blocks
      split_ifs <;> simp
    rw [List.flatMap_cons, List.length_append, List.length_cons]
    omega

/-- What the window has lost before the last packages come in is lost after them as well. -/
theorem rtake_missing (l : List Receiver.Package) (a len : UInt64) (k size : ℕ) (x : Receiver.Package) :
    ((l ++ [(⟨[], a + len⟩ : Receiver.Package)]).rtake (size - 1) ++
      Receiver.missing (a + len) len k ++ [x]).rtake size =
        (l ++ Receiver.missing a len (k + 1) ++ [x]).rtake size := by
  rw [missing_cons, List.append_assoc, Window.rtake_append]
  · simp
  · simp
    omega

/-- **The loop** for a packet that lies `k + 1` places behind the back: the missing packages come
in, and the oldest go as soon as there is no room. -/
theorem Shows.loop (halloc : Allocates alloc) (hlen : 0 < len.toNat) {fuel : ℕ} :
    ∀ (k n : ℕ) (m : DataHeap) (q es : List UInt64) (v : View) (back : Receiver.Package),
      Shows len m ⟨q, es, pack :: r⟩ v → (m.view pack).data ≠ [] → (m.view pack).num = num →
      v.packages.getLast? = some back →
      v.packages.length < v.size → num.toNat = back.num.toNat + (k + 1) * len.toNat →
      2 * v.size + 2 * r.length + v.leaked + 4 < 2 ^ 64 → v.size < fuel → k < n →
      ∃ h' q' es', addLoop alloc fuel pack num len n m.heap = some h' ∧
        Shows len ⟨h', m.bytes⟩ ⟨q', es', r⟩ { v with packages := (v.packages ++
          Receiver.missing back.num len k ++ [m.view pack]).rtake v.size } ∧
        ∀ p ∈ r, DataHeap.view ⟨h', m.bytes⟩ p = m.view p := by
  intro k
  induction k with
  | zero =>
    intro n m q es v back hs h0 hnum hback hroom hk hfree hfuel hn
    obtain ⟨n, rfl⟩ := Nat.exists_eq_add_of_lt hn
    obtain ⟨x, l, rfl⟩ := hs.exists_cons hback
    rw [Nat.zero_add, one_mul] at hk
    have hnext : back.num + len = num := by
      rw [← UInt64.toNat_inj, UInt64.toNat_add, ← hk]
      exact Nat.mod_eq_of_lt num.toNat_lt
    have hdata : (m.heap.package pack).data ≠ 0 := fun hz => h0 (if_pos hz)
    obtain ⟨h', hadd, hs', hview⟩ := hs.link hdata hback (by rw [hnum]; exact hk) hroom
    refine ⟨h', x :: l ++ [pack], es, ?_, ?_, fun p _ => congrFun hview p⟩
    · rw [Nat.zero_add, hs.addLoop_succ hback hroom, if_pos hnext]
      exact hadd
    · have hmiss : Receiver.missing back.num len 0 = [] := rfl
      rw [hmiss, List.append_nil, Window.rtake_of_length_le]
      · exact hs'
      · rw [List.length_append, List.length_singleton]
        exact hroom
  | succ k ih =>
    intro n m q es v back hs h0 hnum hback hroom hk hfree hfuel hn
    obtain ⟨n, rfl⟩ := Nat.exists_eq_add_of_lt hn
    obtain ⟨x, l, rfl⟩ := hs.exists_cons hback
    have hone : (k + 1 + 1) * len.toNat = (k + 1) * len.toNat + len.toNat := Nat.succ_mul _ _
    have hlt := num.toNat_lt
    have hpos : 0 < (k + 1) * len.toNat := Nat.mul_pos (Nat.succ_pos k) hlen
    have hnum₁ : (back.num + len).toNat = back.num.toNat + len.toNat := by
      rw [UInt64.toNat_add, Nat.mod_eq_of_lt]
      omega
    have hne : back.num + len ≠ num := by
      intro he
      rw [he] at hnum₁
      omega
    have hcard : m.heap.live.card = 2 * v.packages.length +
        ((pack :: r).flatMap m.heap.blocks).length + v.leaked := hs.used
    have htwo := length_blocks_le m.heap (pack :: r)
    rw [List.length_cons] at htwo
    obtain ⟨h₁, d, e, hdummy, hs₁, hview₁⟩ := hs.dummy halloc hlen hback hroom (by omega) (by omega)
    obtain ⟨h₂, q', es', hmake, hs₂, hview₂⟩ := hs₁.makeRoom (n := fuel) hlen (by
      dsimp only
      rw [List.length_append, List.length_singleton]
      omega)
    -- the back is the package that has come
    generalize hd : (⟨[], back.num + len⟩ : Receiver.Package) = p at hs₁ hs₂
    have hlast : (if (v.packages ++ [p]).length = v.size then (v.packages ++ [p]).tail
        else v.packages ++ [p]) = (v.packages ++ [p]).rtake (v.size - 1) := tail_or_self hroom
    dsimp only at hs₂
    rw [hlast] at hs₂
    have hsize : 1 ≤ v.packages.length := List.length_pos_of_ne_nil fun hz => by
      rw [hz] at hback
      cases hback
    have hkept : ∀ p ∈ pack :: r, DataHeap.view ⟨h₂, m.bytes⟩ p = m.view p := fun p hp => by
      rw [hview₂]
      exact hview₁ p hp
    have hpack := hkept pack List.mem_cons_self
    have hlen₁ : (v.packages ++ [p]).length = v.packages.length + 1 := by simp
    have hback₂ : ((v.packages ++ [p]).rtake (v.size - 1)).getLast? = some p := by
      rw [Window.getLast?_rtake (by omega), List.getLast?_concat]
    have hroom₂ : ((v.packages ++ [p]).rtake (v.size - 1)).length < v.size := by
      rw [Window.length_rtake]
      omega
    have hp : p.num = back.num + len := by rw [← hd]
    obtain ⟨h', q', es', hloop, hs', hview'⟩ := ih (k + 1 + n) ⟨h₂, m.bytes⟩ q' es' _ p hs₂
      (by rwa [hpack]) (by rw [hpack]; exact hnum) hback₂ hroom₂ (by rw [hp, hnum₁]; omega) hfree
      hfuel (by omega)
    refine ⟨h', q', es', ?_, ?_, fun p hp => ?_⟩
    · rw [hs.addLoop_succ hback hroom, if_neg hne, hdummy, Option.bind_some, hmake, Option.bind_some]
      exact hloop
    · rw [hpack, ← hd] at hs'
      rw [← rtake_missing]
      exact hs'
    · rw [hview' p hp]
      exact hkept p (List.mem_cons_of_mem _ hp)

/-! ### Whole calls -/

/-- **`reset_buffor`** leaves the spare nodes. -/
theorem Shows.reset (hs : Shows len m ⟨q, es, r⟩ v) (hn : v.packages.length < n) :
    ∃ h', resetBuffor n m.heap = some h' ∧
      Shows len ⟨h', m.bytes⟩ ⟨[], [], r⟩ { v with packages := [] } ∧
      DataHeap.view ⟨h', m.bytes⟩ = m.view := by
  obtain ⟨h', hreset, hview, hsize, hmax, hl⟩ := hs.laid.reset
  refine ⟨h', hreset n ?_ ?_, ⟨hl, rfl, rfl, ?_, hmax.trans hs.maxData, by simp, List.isChain_nil⟩,
    hview⟩
  · exact hs.length_eq.symm.trans_lt hn
  · exact hs.elems_le.trans_lt hn
  · exact (congrArg UInt64.toNat hsize).trans hs.size

/-- **A package for the data** (lines 108-111). -/
theorem Shows.allocate (halloc : Allocates alloc) (hs : Shows len m ⟨q, es, r⟩ v) (num : UInt64)
    (hdata : data.length = len.toNat) (hfree : m.heap.live.card + 3 < 2 ^ 64) :
    ∃ pack block h', allocPackage alloc m.heap num = some (pack, block, h') ∧
      h'.buffor = m.heap.buffor ∧ (h'.package pack).data ≠ 0 ∧
      Shows len ⟨h', update m.bytes block data⟩ ⟨q, es, pack :: r⟩ v ∧
      DataHeap.view ⟨h', update m.bytes block data⟩ pack = ⟨data, num⟩ ∧
      ∀ p ∈ r, DataHeap.view ⟨h', update m.bytes block data⟩ p = m.view p := by
  have hpack := halloc.fresh m.heap (by omega)
  generalize hp : alloc.address m.heap = pack at hpack
  obtain ⟨h₁, hm₁, hlive₁⟩ : ∃ h₁, m.heap.malloc pack = some h₁ ∧ h₁.live = insert pack m.heap.live :=
    ⟨_, Heap.malloc_eq hpack, rfl⟩
  have hcard : h₁.live.card = m.heap.live.card + 1 := by
    rw [hlive₁, Finset.card_insert_of_notMem hpack.2]
  obtain ⟨hb0, hbout⟩ := halloc.fresh h₁ (by omega)
  generalize hb : alloc.address h₁ = block at hb0 hbout
  rw [hlive₁, Finset.mem_insert, not_or] at hbout
  have hbytes : ∀ b ∈ m.heap.live, update m.bytes block data b = m.bytes b := fun b hmem =>
    update_of_ne (ne_of_mem_of_not_mem hmem hbout.2) _ _
  obtain ⟨h', hnew, hbuffor, helem, hsame, hd, hnum, -, hl⟩ :=
    hs.laid.new ⟨hpack.1, hpack.2, Or.inr ⟨hbout.2, hbout.1⟩⟩ num hbytes
      (fun _ => by rw [update_self, hdata])
  have hlive : ∀ p ∈ q ++ r, p ∈ m.heap.live := fun p hp => hs.laid.owns.mem_live hp
  have hview : ∀ p ∈ q ++ r, DataHeap.view ⟨h', update m.bytes block data⟩ p = m.view p := fun p hp =>
    hs.laid.view_fresh hp (hsame p (hlive p hp)) hbytes
  refine ⟨pack, block, h', ?_, hbuffor, by rw [hd]; exact hb0, ⟨hl, ?_, ?_, ?_, ?_, hs.bound,
    hs.ascending⟩, ?_, fun p hp => hview p (List.mem_append_right _ hp)⟩
  · simp only [newPackage, hm₁, if_neg hb0, Option.bind_eq_bind, Option.bind_some] at hnew
    obtain ⟨h₂, hm₂, hst⟩ := Option.bind_eq_some_iff.1 hnew
    simp only [allocPackage, hp, hm₁, hb, hm₂, hst, Option.bind_eq_bind, Option.bind_some]
    rfl
  · show es.map (fun e => (h'.setElem e).package) = q.filter fun p => (h'.package p).data = 0
    rw [helem, hs.holes]
    exact List.filter_congr fun p hp => by rw [hsame p (hlive p (List.mem_append_left _ hp))]
  · rw [← hs.packages]
    exact List.map_congr_left fun p hp => hview p (List.mem_append_left _ hp)
  · exact (congrArg (fun b => b.size.toNat) hbuffor).trans hs.size
  · exact (congrArg Buffor.maxData hbuffor).trans hs.maxData
  · unfold DataHeap.view
    dsimp only
    rw [hd, if_neg hb0, hnum, update_self]

/-- Two nodes have different numbers. -/
theorem Shows.num_inj (hs : Shows len m ⟨q, es, r⟩ v) (hlen : 0 < len.toNat) {a b : UInt64} (ha : a ∈ q)
    (hb : b ∈ q) (hab : (m.heap.package a).num = (m.heap.package b).num) : a = b := by
  have hnums : (q.map fun a => (m.heap.package a).num).Nodup := by
    have hasc := ascending_nodup hs.ascending hlen
    rwa [← hs.packages, List.map_map] at hasc
  exact List.inj_on_of_nodup_map hnums ha hb hab

/-- The first hole is closed, and the others are left. -/
theorem holes_filled {h h' : Heap} {p : UInt64} {holes : List UInt64} (hnodup : q.Nodup)
    (hholes : p :: holes = q.filter fun a => (h.package a).data = 0) (hfilled : (h'.package p).data ≠ 0)
    (hsame : ∀ a, a ≠ p → h'.package a = h.package a) :
    holes = q.filter fun a => (h'.package a).data = 0 := by
  have hsplit : (q.filter fun a => (h'.package a).data = 0) =
      (q.filter fun a => (h.package a).data = 0).filter fun a => a ≠ p := by
    rw [List.filter_filter]
    refine List.filter_congr fun a ha => ?_
    by_cases hap : a = p
    · rw [hap]
      simpa using hfilled
    · rw [hsame a hap]
      simp [hap]
  have hout := hnodup.filter fun a => (h.package a).data = 0
  rw [← hholes] at hout
  rw [hsplit, ← hholes, List.filter_cons_of_neg (by simp)]
  refine (List.filter_eq_self.2 fun a ha => ?_).symm
  simpa using ne_of_mem_of_not_mem ha (List.nodup_cons.1 hout).1

/-- **The packet is the first missing one** (lines 100-107). -/
theorem Shows.fill (halloc : Allocates alloc) (hs : Shows len m ⟨q, es, r⟩ v) (hlen : 0 < len.toNat)
    (hmiss : v.firstMissing = some ⟨[], num⟩) (hdata : data.length = len.toNat)
    (hfree : m.heap.live.card + 1 < 2 ^ 64) (hn : 0 < n) :
    ∃ found h₀ block h₁ h' es', checkSet n m.heap num = some (found, h₀) ∧ found ≠ 0 ∧
      alloc.address h₀ = block ∧ h₀.malloc block = some h₁ ∧
      (h₁.store found fun a => { a with data := block }) = some h' ∧
      Shows len ⟨h', update m.bytes block data⟩ ⟨q, es', r⟩
        { v with packages := v.packages.map fun p : Receiver.Package =>
          if p = ⟨[], num⟩ then { p with data := data } else p } ∧
      ∀ p ∈ r, DataHeap.view ⟨h', update m.bytes block data⟩ p = m.view p := by
  rw [hs.firstMissing_eq hlen, Option.map_eq_some_iff] at hmiss
  obtain ⟨e, he, hnum⟩ := hmiss
  obtain ⟨es, rfl⟩ := List.head?_eq_some_iff.1 he
  have hen : m.heap.number e = num := congrArg Receiver.Package.num hnum
  obtain ⟨h₀, hcheck, ht⟩ := checkSet_head hs.laid.missing hn hen
  obtain ⟨hmem, hzero⟩ := hs.mem_nodes List.mem_cons_self
  have hholes := hs.holes
  generalize hp : (m.heap.setElem e).package = p at hcheck hmem hzero
  have hpn : (m.heap.package p).num = num := by
    rw [← hp]
    exact hen
  have hlive : p ∈ m.heap.live := hs.laid.owns.mem_live (List.mem_append_left _ hmem)
  have hcard := Finset.card_erase_le (s := m.heap.live) (a := e)
  rw [← ht.live] at hcard
  have hfresh := halloc.fresh h₀ (by omega)
  generalize hb : alloc.address h₀ = block at hfresh
  have hl₀ := hs.laid.unnote ht
  obtain ⟨h₁, h', hm, hst, hbuffor, helem, hpackage, hl⟩ := hl₀.setData hmem
    (by rw [ht.package]; exact hzero) hfresh hdata
  rw [ht.package] at hpackage
  have hbytes : ∀ b ∈ h₀.live, update m.bytes block data b = m.bytes b := fun b hb =>
    update_of_ne (ne_of_mem_of_not_mem hb hfresh.2) _ _
  have hsame : ∀ a, a ≠ p → h'.package a = m.heap.package a := fun a ha => by
    rw [hpackage, update_of_ne ha]
  have hview : ∀ a ∈ q ++ r, a ≠ p →
      DataHeap.view ⟨h', update m.bytes block data⟩ a = m.view a := fun a ha hap => by
    have hv : DataHeap.view ⟨h₀, m.bytes⟩ a = m.view a := by
      unfold DataHeap.view
      rw [ht.package]
    rw [← hv]
    exact hl₀.view_fresh ha ((hsame a hap).trans (congrFun ht.package a).symm) hbytes
  have hpnew : h'.package p = { m.heap.package p with data := block } := by
    rw [hpackage, update_self]
  have hnodup := hs.laid.owns.nodup_nodes
  refine ⟨p, h₀, block, h₁, h', es, hcheck, Heap.ne_zero hlive, hb, hm, hst,
    ⟨hl, ?_, ?_, ?_, ?_, ?_, ?_⟩, fun a ha => ?_⟩
  · have hrest : es.map (fun e => (h'.setElem e).package) =
        es.map fun e => (m.heap.setElem e).package :=
      List.map_congr_left fun a _ => by rw [helem, ht.elem]
    rw [List.map_cons, hp] at hholes
    rw [hrest]
    exact holes_filled hnodup.of_append_left hholes (by rw [hpnew]; exact hfresh.1) hsame
  · rw [← hs.packages, List.map_map]
    refine List.map_congr_left fun a ha => ?_
    by_cases hap : a = p
    · have hold : m.view p = ⟨[], num⟩ := by
        unfold DataHeap.view
        rw [if_pos hzero, hpn]
      rw [hap, comp_apply, hold, if_pos rfl]
      unfold DataHeap.view
      dsimp only
      rw [hpnew, if_neg hfresh.1, update_self, hpn]
    · rw [hview a (List.mem_append_left _ ha) hap, comp_apply, if_neg]
      exact fun he => hap (hs.num_inj hlen ha hmem ((congrArg Receiver.Package.num he).trans hpn.symm))
  · refine (congrArg (fun b => b.size.toNat) hbuffor).trans ?_
    rw [ht.buffor]
    exact hs.size
  · refine (congrArg Buffor.maxData hbuffor).trans ?_
    rw [ht.buffor]
    exact hs.maxData
  · rw [List.length_map]
    exact hs.bound
  · rw [List.map_map]
    refine (congrArg (Receiver.Ascending len) (List.map_congr_left fun a _ => ?_)).mpr hs.ascending
    dsimp only [comp_apply]
    split_ifs <;> rfl
  · refine hview a (List.mem_append_right _ ha) ?_
    rintro rfl
    exact List.disjoint_of_nodup_append hnodup hmem ha

/-- **The first packet** (line 114). -/
theorem Shows.first (hs : Shows len m ⟨[], es, pack :: r⟩ v) (hlen : len ≠ 0)
    (h0 : (m.heap.package pack).data ≠ 0) :
    ∃ h', addToBufferFirst m.heap pack len = some h' ∧ Shows len ⟨h', m.bytes⟩ ⟨[pack], [], r⟩
        { v with packages := [m.view pack], size := (v.maxData / len).toNat } ∧
      DataHeap.view ⟨h', m.bytes⟩ = m.view := by
  obtain rfl : es = [] := List.map_eq_nil_iff.1 hs.holes
  obtain ⟨h', hadd, hk, hl⟩ := hs.laid.first hlen
  have hview : DataHeap.view ⟨h', m.bytes⟩ = m.view := view_keeps hk m.bytes
  refine ⟨h', hadd, ⟨hl, ?_, ?_, ?_, hk.maxData.trans hs.maxData, ?_, List.isChain_singleton _⟩,
    hview⟩
  · have hd : (h'.package pack).data = (m.heap.package pack).data := congrFun hk.data pack
    show ([] : List UInt64) = [pack].filter fun p => (h'.package p).data = 0
    rw [List.filter_cons_of_neg (by simpa [hd] using h0)]
    rfl
  · rw [hview]
    rfl
  · refine (congrArg UInt64.toNat hk.size).trans ?_
    rw [← hs.maxData]
    rfl
  · exact le_max_left _ _

/-- A packet that `check_set` does not find. -/
theorem Shows.miss (hs : Shows len m L v) (hlen : 0 < len.toNat)
    (hmiss : v.firstMissing ≠ some ⟨[], num⟩) (hn : v.packages.length ≤ n) :
    checkSet n m.heap num = some (0, m.heap) := by
  refine checkSet_miss hs.laid.missing (hs.elems_le.trans hn) fun e he hnum => hmiss ?_
  rw [Option.mem_def] at he
  rw [hs.firstMissing_eq hlen, he, ← hnum]
  rfl

theorem Shows.test (hs : Shows len m L v) (hsize : v.size < 2 ^ 31) : test m.heap = some () :=
  hs.laid.queue.test (by rwa [hs.size])

/-- The loop when there is no room. -/
theorem Shows.addLoop_full (hs : Shows len m L v) {fuel : ℕ} (hfull : ¬ v.packages.length < v.size)
    (hn : 0 < n) : addLoop alloc fuel pack num len n m.heap = some m.heap := by
  obtain ⟨n, rfl⟩ := Nat.exists_eq_add_of_lt hn
  rw [Nat.zero_add, addLoop, if_neg]
  rwa [UInt64.lt_iff_toNat_lt, hs.fill_eq, hs.size]

/-- A packet behind the back is so many places behind it. -/
theorem exists_gap (hlen : 0 < len.toNat) (hlt : back.num < num)
    (hdvd : len.toNat ∣ num.toNat - back.num.toNat) :
    ∃ k, num.toNat = back.num.toNat + (k + 1) * len.toNat ∧
      ((num - back.num) / len).toNat - 1 = k := by
  rw [UInt64.lt_iff_toNat_lt] at hlt
  have hsub : (num - back.num).toNat = num.toNat - back.num.toNat :=
    UInt64.toNat_sub_of_le _ _ (UInt64.le_iff_toNat_le.2 hlt.le)
  obtain ⟨k, hk⟩ := hdvd
  cases k with
  | zero => omega
  | succ k =>
    refine ⟨k, ?_, ?_⟩
    · rw [Nat.mul_comm, ← hk]
      omega
    · rw [UInt64.toNat_div, hsub, hk, Nat.mul_div_cancel_left _ hlen]
      rfl

/-- A packet that is not found (lines 113-135). -/
theorem Shows.insert (halloc : Allocates alloc) (hs : Shows len m ⟨q, es, pack :: r⟩ v)
    (hlen : 0 < len.toNat) (hpack : m.view pack = ⟨data, num⟩) (h0 : (m.heap.package pack).data ≠ 0)
    (hdata : data.length = len.toNat) (hmiss : v.firstMissing ≠ some ⟨[], num⟩)
    (hacc : v.Accepts len num) (hfree : 2 * v.size + 2 * r.length + v.leaked + 4 < 2 ^ 64)
    (hn : 2 ^ 64 ≤ n) :
    ∃ h' q' es', (if m.heap.buffor.packages = 0 then addToBufferFirst m.heap pack len
        else addLoop alloc n pack num len n m.heap) = some h' ∧
      Shows len ⟨h', m.bytes⟩ ⟨q', es', r⟩ (v.insert num data) ∧
      ∀ p ∈ r, DataHeap.view ⟨h', m.bytes⟩ p = m.view p := by
  have hofNat : UInt64.ofNat data.length = len := by rw [hdata, UInt64.ofNat_toNat]
  unfold View.insert
  rw [hofNat]
  cases hback : v.packages.getLast? with
  | none =>
    obtain rfl : q = [] := by
      rw [List.getLast?_eq_none_iff, ← hs.packages] at hback
      exact List.map_eq_nil_iff.1 hback
    have hnull : m.heap.buffor.packages = 0 := hs.laid.queue.packages
    have hlen0 : len ≠ 0 := by
      rintro rfl
      exact absurd hlen (lt_irrefl 0)
    obtain ⟨h', hadd, hs', hview⟩ := hs.first hlen0 h0
    rw [if_pos hnull, ← hpack]
    exact ⟨h', [pack], [], hadd, hs', fun p _ => congrFun hview p⟩
  | some back =>
    obtain ⟨x, l, rfl⟩ := hs.exists_cons hback
    have hnull : m.heap.buffor.packages ≠ 0 :=
      Holds.packages_ne_zero (h := m.heap.withSet 0) hs.laid.queue
    rw [if_neg hnull]
    dsimp only
    by_cases hroom : v.packages.length < v.size
    · obtain ⟨hlt, hdvd⟩ := hacc.resolve_left hmiss back hback hroom
      obtain ⟨k, hk, hgap⟩ := exists_gap hlen hlt hdvd
      have hkn : k < 2 ^ 64 := by
        have hle := Nat.le_mul_of_pos_right (k + 1) hlen
        have hnum := num.toNat_lt
        omega
      have hne : (m.view pack).data ≠ [] := by
        rw [hpack]
        rintro rfl
        rw [List.length_nil] at hdata
        omega
      rw [if_pos hroom, hgap, ← hpack]
      exact hs.loop halloc hlen k n m (x :: l) es v back hne (by rw [hpack]) hback hroom hk hfree
        (by omega) (by omega)
    · rw [if_neg hroom]
      have hblocks : (m.heap.blocks pack).length = 2 := by
        unfold Heap.blocks
        rw [if_pos h0]
        rfl
      have hl := hs.laid.leak
      rw [hblocks] at hl
      exact ⟨m.heap, x :: l, es, hs.addLoop_full hroom (by omega),
        ⟨hl, hs.holes, hs.packages, hs.size, hs.maxData, hs.bound, hs.ascending⟩, fun _ _ => rfl⟩

theorem View.insert_size (v : View) (num : UInt64) (data : List UInt8) :
    (v.insert num data).size = v.size ∨
      (v.insert num data).size = (v.maxData / UInt64.ofNat data.length).toNat := by
  unfold View.insert
  cases v.packages.getLast? with
  | none => exact Or.inr rfl
  | some back =>
    left
    dsimp only
    split_ifs <;> rfl

/-- **`add_to_buffor`** does what it is for. The spare nodes stay. -/
theorem Shows.add (halloc : Allocates alloc) (hs : Shows len m ⟨q, es, r⟩ v) (hlen : 0 < len.toNat)
    (hsize : v.size < 2 ^ 31) (hmax : (v.maxData / len).toNat < 2 ^ 31)
    (hdata : data.length = len.toNat) (hacc : v.Accepts len num)
    (hfree : 2 * r.length + v.leaked + 2 ^ 33 < 2 ^ 64) (hn : 2 ^ 64 ≤ n) :
    ∃ m' q' es', addToBuffor alloc n m num data = some m' ∧
      Shows len m' ⟨q', es', r⟩ (v.add num data) ∧ ∀ p ∈ r, m'.view p = m.view p := by
  have hofNat : UInt64.ofNat data.length = len := by rw [hdata, UInt64.ofNat_toNat]
  have hbound := hs.bound
  have hcard : m.heap.live.card = 2 * v.packages.length +
      (r.flatMap m.heap.blocks).length + v.leaked := hs.used
  have hr := length_blocks_le m.heap r
  unfold addToBuffor View.add
  rw [hofNat, hs.test hsize]
  by_cases hmiss : v.firstMissing = some ⟨[], num⟩
  · obtain ⟨found, h₀, block, h₁, h', es', hcheck, hfound, hb, hm, hst, hs', hview⟩ :=
      hs.fill halloc hlen hmiss hdata (by omega) (by omega : 0 < n)
    refine ⟨_, q, es', ?_, by rw [if_pos hmiss]; exact hs', hview⟩
    simp only [hcheck, if_pos hfound, hb, hm, hst, Option.bind_eq_bind, Option.bind_some]
    rfl
  · have hcheck := hs.miss hlen hmiss (n := n) (by omega)
    obtain ⟨pack, block, h₁, halc, -, h0, hs₁, hpack, hview₁⟩ :=
      hs.allocate halloc num hdata (by omega)
    obtain ⟨h', q', es', hins, hs', hview'⟩ :=
      hs₁.insert halloc hlen hpack h0 hdata hmiss hacc (by omega) hn
    have htest := hs'.test (by
      rcases v.insert_size num data with heq | heq
      · rwa [heq]
      · rwa [heq, hofNat])
    refine ⟨⟨h', update m.bytes block data⟩, q', es', ?_, by rw [if_neg hmiss]; exact hs',
      fun p hp => (hview' p hp).trans (hview₁ p hp)⟩
    simp only [hcheck, halc, Option.bind_eq_bind, Option.bind_some, ne_eq, not_true_eq_false,
      if_false]
    by_cases hnull : h₁.buffor.packages = 0
    · rw [if_pos hnull] at hins ⊢
      simp only [hins, htest, Option.bind_some]
      rfl
    · rw [if_neg hnull] at hins ⊢
      simp only [hins, htest, Option.bind_some]
      rfl

end SikMimuw.Big
