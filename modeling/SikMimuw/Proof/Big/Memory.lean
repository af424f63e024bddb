import SikMimuw.Model.Big.Reassembly
import SikMimuw.Proof.Big.Packages

/-!
# The packages and the missing ones side by side

The ring of packages does not look at `set` (`IsQueue`), and the links of its nodes are all that its
operations change (`Keeps`), so the ring of missing packages stays as it is.

* `IsQueue.push`, `IsQueue.take`, `IsQueue.test`: the packages.
* `Missing.push`, `checkSet_head`, `checkSet_miss`: the missing ones.
* `removePackage_live`, `resetLoop_live`, `deleteSet_live`: what is freed.
-/

namespace SikMimuw.Big

open LinkedRing Function

variable {h h' : Heap} {x p pack data num len e : UInt64} {q l es : List UInt64} {n : ℕ}

/-! ### The ring of packages -/

/-- The heap with another `set`. -/
def Heap.withSet (h : Heap) (e : UInt64) : Heap := h.setBuffor fun b => { b with set := e }

/-- **The packages are a queue**, whatever is missing. -/
def IsQueue (h : Heap) (q : List UInt64) : Prop := Holds (h.withSet 0) q

/-- Nothing but links, `fill` and `packages` is changed. -/
structure Keeps (h h' : Heap) : Prop where
  num : Package.num ∘ h'.package = Package.num ∘ h.package
  data : Package.data ∘ h'.package = Package.data ∘ h.package
  setElem : h'.setElem = h.setElem
  live : h'.live = h.live
  set : h'.buffor.set = h.buffor.set
  size : h'.buffor.size = h.buffor.size
  maxData : h'.buffor.maxData = h.buffor.maxData

theorem Keeps.refl (h : Heap) : Keeps h h := ⟨rfl, rfl, rfl, rfl, rfl, rfl, rfl⟩

theorem Keeps.trans {h₁ h₂ h₃ : Heap} (a : Keeps h₁ h₂) (b : Keeps h₂ h₃) : Keeps h₁ h₃ :=
  ⟨b.num.trans a.num, b.data.trans a.data, b.setElem.trans a.setElem, b.live.trans a.live,
    b.set.trans a.set, b.size.trans a.size, b.maxData.trans a.maxData⟩

theorem store_keeps {f : Package → Package} (hf : ∀ a, (f a).num = a.num ∧ (f a).data = a.data)
    (hst : h.store p f = some h') : Keeps h h' := by
  unfold Heap.store at hst
  split at hst
  · cases hst
    exact ⟨comp_update_of_eq (hf _).1, comp_update_of_eq (hf _).2, rfl, rfl, rfl, rfl, rfl⟩
  · cases hst

theorem setBuffor_keeps {f : Buffor → Buffor} (hset : (f h.buffor).set = h.buffor.set)
    (hsize : (f h.buffor).size = h.buffor.size) (hmax : (f h.buffor).maxData = h.buffor.maxData) :
    Keeps h (h.setBuffor f) := ⟨rfl, rfl, rfl, rfl, hset, hsize, hmax⟩

theorem addToBufferEnd_keeps (hadd : addToBufferEnd h pack = some h') : Keeps h h' := by
  simp only [addToBufferEnd, Option.bind_eq_bind, Option.bind_eq_some_iff] at hadd
  obtain ⟨_, -, h₁, hs₁, _, -, h₂, hs₂, h₃, hs₃, h₄, hs₄, hret⟩ := hadd
  cases hret
  have hlinks : Keeps h h₄ := (((store_keeps (by simp) hs₁).trans (store_keeps (by simp) hs₂)).trans
    (store_keeps (by simp) hs₃)).trans (store_keeps (by simp) hs₄)
  exact hlinks.trans (setBuffor_keeps rfl rfl rfl)

theorem takeFirst_keeps (htake : takeFirst h = some (x, h')) : Keeps h h' := by
  simp only [takeFirst, Option.bind_eq_bind] at htake
  split at htake
  · cases htake
    exact setBuffor_keeps rfl rfl rfl
  · simp only [Option.bind_eq_some_iff] at htake
    obtain ⟨_, -, h₁, hs₁, _, -, h₂, hs₂, hret⟩ := htake
    cases hret
    exact (((setBuffor_keeps rfl rfl rfl).trans (store_keeps (by simp) hs₁)).trans
      (store_keeps (by simp) hs₂)).trans (setBuffor_keeps rfl rfl rfl)

section WithSet

variable (h : Heap) (e p : UInt64)

theorem withSet_packages : (h.withSet e).buffor.packages = h.buffor.packages := rfl

theorem withSet_load : (h.withSet e).load p = h.load p := rfl

theorem withSet_store (f : Package → Package) :
    (h.withSet e).store p f = (h.store p f).map (·.withSet e) := by
  unfold Heap.store
  show (if p ∈ h.live then _ else _) = _
  split <;> rfl

theorem addToBufferEnd_withSet :
    addToBufferEnd (h.withSet e) p = (addToBufferEnd h p).map (·.withSet e) := by
  simp only [addToBufferEnd, Option.bind_eq_bind, withSet_load, withSet_packages, withSet_store,
    Option.map_bind, Option.bind_map, comp_def]
  rfl

theorem takeFirst_withSet :
    takeFirst (h.withSet e) = (takeFirst h).map fun r => (r.1, r.2.withSet e) := by
  have hnext : ∀ t : Package, (h.withSet e).setBuffor (fun b => { b with packages := t.next }) =
      (h.setBuffor fun b => { b with packages := t.next }).withSet e := fun _ => rfl
  by_cases hone : h.buffor.fill = 1
  · have hone' : (h.withSet e).buffor.fill = 1 := hone
    simp only [takeFirst, if_pos hone, if_pos hone']
    rfl
  · have hone' : (h.withSet e).buffor.fill ≠ 1 := hone
    simp only [takeFirst, if_neg hone, if_neg hone', Option.bind_eq_bind, withSet_load,
      withSet_packages, hnext, withSet_store, Option.bind_map, Option.map_bind, comp_def]
    rfl

end WithSet

/-- **`add_to_buffer_end`** on the node of a new package. -/
theorem IsQueue.push (hq : IsQueue h (x :: l)) (ho : Owns h (x :: l ++ [pack])) :
    ∃ h', addToBufferEnd h pack = some h' ∧ IsQueue h' (x :: l ++ [pack]) ∧ Keeps h h' := by
  obtain ⟨h₀, hadd, -, hh⟩ := addToBufferEnd_holds (h := h.withSet 0) hq.packages hq.fill hq.set
    hq.ring (ho.congr rfl rfl)
  rw [addToBufferEnd_withSet, Option.map_eq_some_iff] at hadd
  obtain ⟨h', hadd, rfl⟩ := hadd
  exact ⟨h', hadd, hh, addToBufferEnd_keeps hadd⟩

/-- **`takeFirst`** unlinks the oldest node. -/
theorem IsQueue.take (hq : IsQueue h (x :: l)) :
    ∃ h', takeFirst h = some (x, h') ∧ IsQueue h' l ∧ Keeps h h' := by
  obtain ⟨h₀, htake, -, -, -, hh⟩ := Holds.take hq
  rw [takeFirst_withSet, Option.map_eq_some_iff] at htake
  obtain ⟨⟨y, h'⟩, htake, he⟩ := htake
  obtain ⟨rfl, rfl⟩ := Prod.mk.inj he
  exact ⟨h', htake, hh, takeFirst_keeps htake⟩

/-- What the nodes and `fill` depend on. -/
theorem IsQueue.congr (hq : IsQueue h q) (hpackages : h'.buffor.packages = h.buffor.packages)
    (hfill : h'.buffor.fill = h.buffor.fill)
    (hnext : Package.next ∘ h'.package = Package.next ∘ h.package)
    (hprev : Package.prev ∘ h'.package = Package.prev ∘ h.package) (ho : Owns h' q) : IsQueue h' q where
  packages := hpackages.trans hq.packages
  fill := (congrArg UInt64.toNat hfill).trans hq.fill
  set := rfl
  ring := by
    show IsRing (Package.next ∘ h'.package) (Package.prev ∘ h'.package) q
    rw [hnext, hprev]
    exact hq.ring
  owns := ho.congr rfl rfl

theorem IsQueue.owns' (hq : IsQueue h q) : Owns h q := hq.owns.congr rfl rfl

theorem IsQueue.testLoop (hq : IsQueue h q) : ∀ n x, x ∈ q → testLoop n x h = some () := by
  intro n
  induction n with
  | zero => exact fun _ _ => rfl
  | succ n ih =>
    intro x hx
    have hlive : ∀ p ∈ q, p ∈ h.live := fun p hp => hq.owns'.mem_live hp
    have hnext : (h.package x).next ∈ q := hq.ring.next_mem hx
    have hprev : (h.package x).prev ∈ q := hq.ring.prev_mem hx
    simp only [Big.testLoop, Heap.load_eq (hlive x hx), Option.bind_eq_bind, Option.bind_some]
    rw [if_neg]
    · exact ih _ hnext
    · rw [not_or]
      exact ⟨Heap.ne_zero (hlive _ hnext), Heap.ne_zero (hlive _ hprev)⟩

/-- **The assertions** of `test` hold. -/
theorem IsQueue.test (hq : IsQueue h q) (hsize : h.buffor.size.toNat < 2 ^ 31) : test h = some () := by
  unfold Big.test
  cases q with
  | nil => exact if_pos hq.packages
  | cons x l =>
    have hx : h.buffor.packages = x := hq.packages
    have h0 : h.buffor.packages ≠ 0 := Holds.packages_ne_zero (h := h.withSet 0) hq
    rw [if_neg h0, if_neg (by omega), hx]
    exact hq.testLoop _ x List.mem_cons_self

/-- **`remove_package`** frees the blocks of a node, and no other. -/
theorem removePackage_live (ho : Owns h [x]) :
    ∃ h', removePackage h x = some h' ∧ h'.buffor = h.buffor ∧ h'.package = h.package ∧
      h'.setElem = h.setElem ∧ h'.live = h.live \ (h.blocks x).toFinset ∧
      h'.live.card + (h.blocks x).length = h.live.card := by
  obtain ⟨hnodup, hlive⟩ := ho
  rw [List.flatMap_singleton] at hnodup hlive
  have hcard : (h.live \ (h.blocks x).toFinset).card + (h.blocks x).length = h.live.card := by
    rw [← List.toFinset_card_of_nodup hnodup]
    exact Finset.card_sdiff_add_card_eq_card fun b hb => hlive b (List.mem_toFinset.1 hb)
  have hx : x ∈ h.live := hlive x (h.mem_blocks x)
  unfold Heap.blocks at *
  by_cases h0 : (h.package x).data ≠ 0
  · rw [if_pos h0] at hnodup hlive hcard ⊢
    have hdata : (h.package x).data ∈ h.live := hlive _ List.mem_cons_self
    have hne : x ≠ (h.package x).data := fun he => (List.nodup_cons.1 hnodup).1 (by simp [← he])
    have hx' : x ∈ h.live.erase (h.package x).data := Finset.mem_erase_of_ne_of_mem hne hx
    have hset : (h.live.erase (h.package x).data).erase x =
        h.live \ [(h.package x).data, x].toFinset := by
      ext b
      simp
      tauto
    simp only [removePackage, Heap.load_eq hx, if_pos h0, Heap.free_eq, hdata, hx',
      Option.bind_eq_bind, Option.bind_some]
    exact ⟨_, rfl, rfl, rfl, rfl, hset, (congrArg (·.card + _) hset).trans hcard⟩
  · rw [if_neg h0] at hnodup hlive hcard ⊢
    have hset : h.live.erase x = h.live \ [x].toFinset := by
      ext b
      simp
      tauto
    simp only [removePackage, Heap.load_eq hx, if_neg h0, Heap.free_eq hx, Option.bind_eq_bind,
      Option.bind_some]
    exact ⟨_, rfl, rfl, rfl, rfl, hset, (congrArg (·.card + _) hset).trans hcard⟩

/-- **The loop of `reset_buffor`** frees the blocks of the nodes, and no other. -/
theorem resetLoop_live (hq : IsQueue h q) :
    ∃ h', (∀ n, q.length < n → resetLoop n h = some h') ∧ IsQueue h' [] ∧
      Package.num ∘ h'.package = Package.num ∘ h.package ∧
      Package.data ∘ h'.package = Package.data ∘ h.package ∧ h'.setElem = h.setElem ∧
      h'.live = h.live \ (q.flatMap h.blocks).toFinset ∧ h'.buffor.set = h.buffor.set ∧
      h'.buffor.size = h.buffor.size ∧ h'.buffor.maxData = h.buffor.maxData := by
  induction q generalizing h with
  | nil =>
    refine ⟨h, fun n hn => ?_, hq, rfl, rfl, rfl, by simp, rfl, rfl, rfl⟩
    obtain ⟨n, rfl⟩ := Nat.exists_eq_add_of_lt hn
    exact if_pos hq.packages
  | cons x l ih =>
    obtain ⟨h₁, htake, hq₁, hk⟩ := hq.take
    have hblocks₁ : h₁.blocks = h.blocks := Heap.blocks_congr hk.data
    have ho : Owns h₁ (x :: l) := hq.owns'.congr hk.data hk.live
    have hnodup := ho.nodup
    rw [List.flatMap_cons] at hnodup
    have hx : Owns h₁ [x] := by
      obtain ⟨-, hlive⟩ := ho
      rw [List.flatMap_cons] at hlive
      constructor
      · rw [List.flatMap_singleton]
        exact hnodup.of_append_left
      · rw [List.flatMap_singleton]
        exact fun b hb => hlive b (List.mem_append_left _ hb)
    obtain ⟨h₂, hremove, hbuffor₂, hpackage₂, helem₂, hlive₂, -⟩ := removePackage_live hx
    have hblocks₂ : h₂.blocks = h₁.blocks := Heap.blocks_congr (by rw [hpackage₂])
    have hq₂ : IsQueue h₂ l := by
      refine hq₁.congr (by rw [hbuffor₂]) (by rw [hbuffor₂]) (by rw [hpackage₂]) (by rw [hpackage₂]) ?_
      constructor
      · rw [hblocks₂]
        exact ho.of_cons.nodup
      · intro b hb
        rw [hblocks₂] at hb
        rw [hlive₂, Finset.mem_sdiff, List.mem_toFinset]
        exact ⟨ho.of_cons.live b hb, fun hbx => List.disjoint_of_nodup_append hnodup hbx hb⟩
    obtain ⟨h', hrun, hq', hnum, hdata, helem, hlive, hset, hsize, hmax⟩ := ih hq₂
    rw [hbuffor₂] at hset hsize hmax
    rw [hpackage₂] at hnum hdata
    refine ⟨h', fun n hn => ?_, hq', hnum.trans hk.num, hdata.trans hk.data,
      helem.trans (helem₂.trans hk.setElem), ?_, hset.trans hk.set, hsize.trans hk.size,
      hmax.trans hk.maxData⟩
    · obtain ⟨n, rfl⟩ := Nat.exists_eq_add_of_lt hn
      have h0 : h.buffor.packages ≠ 0 := Holds.packages_ne_zero (h := h.withSet 0) hq
      rw [resetLoop, if_neg h0, htake]
      simp only [Option.bind_eq_bind, Option.bind_some, hremove]
      exact hrun _ (by rw [List.length_cons]; omega)
    · rw [hlive, hlive₂, hblocks₂, hblocks₁, hk.live, List.flatMap_cons]
      ext b
      simp only [Finset.mem_sdiff, List.mem_toFinset, List.mem_append, not_or]
      tauto

/-! ### The ring of missing packages -/

/-- What the elements depend on. -/
theorem Missing.congr (hm : Missing h es) (hset : h'.buffor.set = h.buffor.set)
    (helem : h'.setElem = h.setElem)
    (hlive : ∀ e ∈ es, e ∈ h'.live ∧ (h.setElem e).package ∈ h'.live)
    (hnum : ∀ e ∈ es, h'.number e = h.number e) : Missing h' es where
  set := hset.trans hm.set
  ring := by rw [helem]; exact hm.ring
  nodup := hm.nodup
  elems e he := (hlive e he).1
  packages e he := by
    rw [helem]
    exact ⟨(hlive e he).2, (hm.packages e he).2⟩
  ascending := by
    refine hm.ascending.imp_of_mem fun ha hb hab => ?_
    rwa [hnum _ ha, hnum _ hb]

/-- **`check_set`** finds the first missing package. -/
theorem checkSet_head (hm : Missing h (x :: l)) (hn : 0 < n) (hnum : h.number x = num) :
    ∃ h', checkSet n h num = some ((h.setElem x).package, h') ∧ TakenOut h (x :: l) x h' := by
  obtain ⟨n, rfl⟩ := Nat.exists_eq_add_of_lt hn
  have hset : h.buffor.set = x := hm.set
  obtain ⟨h', hrem, hout⟩ := hm.removeElem_head
  refine ⟨h', ?_, hout⟩
  unfold checkSet
  rw [hset, if_neg (Heap.ne_zero (hm.elems x List.mem_cons_self)),
    hm.checkLoop_succ List.mem_cons_self, if_pos hnum, hrem]

/-- And it finds no other. -/
theorem checkSet_miss (hm : Missing h es) (hn : es.length ≤ n)
    (hnum : ∀ e ∈ es.head?, h.number e ≠ num) : checkSet n h num = some (0, h) := by
  unfold checkSet
  cases es with
  | nil => exact if_pos hm.set
  | cons x l =>
    have hset : h.buffor.set = x := hm.set
    rw [hset, if_neg (Heap.ne_zero (hm.elems x List.mem_cons_self))]
    exact hm.checkLoop_miss l [] x n rfl (hnum x rfl) hn

/-- `delete_set` takes out the first element. -/
theorem deleteSet_succ (hring : IsRing (SetElem.next ∘ h.setElem) (SetElem.prev ∘ h.setElem) (x :: l))
    (hset : h.buffor.set = x) (hnodup : (x :: l).Nodup) (hlive : ∀ e ∈ x :: l, e ∈ h.live) :
    ∃ h', (∀ n, deleteSet (n + 1) h = deleteSet n h') ∧
      IsRing (SetElem.next ∘ h'.setElem) (SetElem.prev ∘ h'.setElem) l ∧
      h'.buffor = { h.buffor with set := l.headD 0 } ∧ h'.package = h.package ∧
      h'.live = h.live.erase x := by
  have hx : x ∈ h.live := hlive x List.mem_cons_self
  have hout := (List.nodup_cons.1 hnodup).1
  have hx0 : x ≠ 0 := Heap.ne_zero hx
  by_cases hl : l = []
  · subst hl
    have hself : (h.setElem x).next = x := (hring.next_eq_iff hout).2 rfl
    simp only [deleteSet, hset, if_neg hx0, Heap.loadElem_eq hx, if_pos hself, Heap.free_eq hx,
      Option.bind_eq_bind, Option.bind_some]
    exact ⟨_, fun _ => rfl, isRing_nil, rfl, rfl, rfl⟩
  · obtain ⟨hnext, hprev⟩ := hring.neighbours hout hl
    have hne : ∀ e ∈ l, e ≠ x := fun e he hex => hout (hex ▸ he)
    have hself : (h.setElem x).next ≠ x := hne _ hnext
    have hxp : x ≠ (h.setElem x).prev := (hne _ hprev).symm
    have hnlive : (h.setElem x).next ∈ h.live := hlive _ (List.mem_cons_of_mem _ hnext)
    have hplive : (h.setElem x).prev ∈ h.live := hlive _ (List.mem_cons_of_mem _ hprev)
    simp only [deleteSet, hset, if_neg hx0, Heap.loadElem_eq, Heap.storeElem_eq, Heap.free_eq, hx,
      hnlive, hplive, if_neg hself, Heap.setBuffor, update_of_ne hxp, Option.bind_eq_bind,
      Option.bind_some]
    have hfirst : (h.setElem x).next = l.headD 0 := by
      obtain ⟨y, l, rfl⟩ := List.exists_cons_of_ne_nil hl
      exact hring.next_head.1
    refine ⟨_, fun _ => rfl, ?_, by rw [← hfirst], rfl, rfl⟩
    convert hring.unlink_update hout using 1
    · rw [comp_update_of_eq, comp_update]
      · rfl
      · rfl
    · rw [comp_update, comp_update_of_eq]
      · rfl
      · rfl

/-- **`delete_set`** frees the elements, and nothing else. -/
theorem deleteSet_live (hring : IsRing (SetElem.next ∘ h.setElem) (SetElem.prev ∘ h.setElem) es)
    (hset : h.buffor.set = es.headD 0) (hnodup : es.Nodup) (hlive : ∀ e ∈ es, e ∈ h.live) :
    ∃ h', (∀ n, es.length < n → deleteSet n h = some h') ∧ h'.buffor = { h.buffor with set := 0 } ∧
      h'.package = h.package ∧ h'.live = h.live \ es.toFinset := by
  induction es generalizing h with
  | nil =>
    refine ⟨h, fun n hn => ?_, ?_, rfl, by simp⟩
    · obtain ⟨n, rfl⟩ := Nat.exists_eq_add_of_lt hn
      exact if_pos hset
    · show h.buffor = { h.buffor with set := ([] : List UInt64).headD 0 }
      rw [← hset]
  | cons x l ih =>
    obtain ⟨h₁, hstep, hring₁, hbuffor₁, hpackage₁, hlive₁⟩ := deleteSet_succ hring hset hnodup hlive
    have hl : ∀ e ∈ l, e ∈ h₁.live := fun e he => by
      rw [hlive₁]
      exact Finset.mem_erase_of_ne_of_mem (ne_of_mem_of_not_mem he (List.nodup_cons.1 hnodup).1)
        (hlive e (List.mem_cons_of_mem _ he))
    obtain ⟨h', hrun, hbuffor, hpackage, hlive'⟩ := ih hring₁ (by rw [hbuffor₁]) hnodup.of_cons hl
    refine ⟨h', fun n hn => ?_, by rw [hbuffor, hbuffor₁], hpackage.trans hpackage₁, ?_⟩
    · rw [List.length_cons] at hn
      obtain ⟨n, rfl⟩ := Nat.exists_eq_add_of_lt hn
      rw [hstep]
      exact hrun _ (by omega)
    · rw [hlive', hlive₁, List.toFinset_cons]
      ext b
      simp only [Finset.mem_sdiff, Finset.mem_erase, Finset.mem_insert, not_or]
      tauto

section Push

variable {alloc : Malloc}

/-- **`add_to_set`**: the element comes behind the last one. -/
structure PutIn (h : Heap) (es : List UInt64) (e p : UInt64) (h' : Heap) : Prop where
  missing : Missing h' (es ++ [e])
  buffor : h'.buffor = { h.buffor with set := h'.buffor.set }
  package : h'.package = h.package
  elem : ∀ a, (h'.setElem a).package = if a = e then p else (h.setElem a).package
  live : h'.live = insert e h.live

/-- The stores of `add_to_set`, with the ring that they make. -/
theorem Heap.addToSet_eq (hroom : sizeofSetElem ≤ alloc.room sizeofPointer) (hm : Missing h es)
    (hfresh : alloc.address h ≠ 0 ∧ alloc.address h ∉ h.live) (p : UInt64) :
    ∃ h', h.addToSet alloc p = some h' ∧
      IsRing (SetElem.next ∘ h'.setElem) (SetElem.prev ∘ h'.setElem) (es ++ [alloc.address h]) ∧
      SetElem.package ∘ h'.setElem = update (SetElem.package ∘ h.setElem) (alloc.address h) p ∧
      h'.buffor = { h.buffor with set := (es ++ [alloc.address h]).headD 0 } ∧ h'.package = h.package ∧
      h'.live = insert (alloc.address h) h.live := by
  have hfits : ¬ alloc.room sizeofPointer < sizeofSetElem := Nat.not_lt.2 hroom
  unfold Heap.addToSet
  generalize alloc.address h = e at hfresh ⊢
  have he : e ∈ insert e h.live := Finset.mem_insert_self _ _
  cases es with
  | nil =>
    have hset : h.buffor.set = 0 := hm.set
    simp only [Heap.malloc_eq hfresh, if_neg hfits, Heap.storeElem_eq, he, hset, if_true, Heap.setBuffor,
      Option.bind_eq_bind, Option.bind_some]
    refine ⟨_, rfl, isRing_singleton.2 ⟨?_, ?_⟩, ?_, rfl, rfl, rfl⟩
    · simp
    · simp
    · rw [comp_update_of_eq, comp_update_of_eq, comp_update]
      · rfl
      · rfl
  | cons x l =>
    have hset : h.buffor.set = x := hm.set
    have hx : x ∈ insert e h.live := Finset.mem_insert_of_mem (hm.elems x List.mem_cons_self)
    have hx0 : x ≠ 0 := Heap.ne_zero (hm.elems x List.mem_cons_self)
    have hxe : x ≠ e := fun hxe => hfresh.2 (hxe ▸ hm.elems x List.mem_cons_self)
    have hout : e ∉ x :: l := fun hmem => hfresh.2 (hm.elems e hmem)
    have hpx : (h.setElem x).prev ∈ x :: l := hm.ring.prev_mem List.mem_cons_self
    have hprev : (h.setElem x).prev ∈ insert e h.live :=
      Finset.mem_insert_of_mem (hm.elems _ hpx)
    simp only [Heap.malloc_eq hfresh, if_neg hfits, Heap.storeElem_eq, Heap.loadElem_eq, he, hx, hset,
      if_neg hx0, hprev, update_of_ne hxe, Option.bind_eq_bind, Option.bind_some]
    refine ⟨_, rfl, ?_, ?_, ?_, rfl, rfl⟩
    · rw [List.cons_append]
      have hne : (h.setElem x).prev ≠ e := fun hpe => hout (hpe ▸ hpx)
      convert hm.ring.link_update (List.nodup_cons.1 hm.nodup).1 hout using 1
      · rw [comp_update_of_eq, comp_update, comp_update_of_eq, comp_update, comp_update_of_eq]
        · exact update_comm hne.symm _ _ _
        · rfl
        · rfl
        · rfl
      · rw [comp_update, comp_update_of_eq, comp_update, comp_update_of_eq, comp_update_of_eq]
        · rfl
        · rfl
        · rfl
        · rfl
    · rw [comp_update_of_eq, comp_update_of_eq, comp_update_of_eq, comp_update_of_eq, comp_update]
      all_goals rfl
    · rw [← hset]
      rfl

/-- **A package is noted as missing**, behind those of lesser numbers. -/
theorem Missing.push (hroom : sizeofSetElem ≤ alloc.room sizeofPointer) (hm : Missing h es)
    (hfresh : alloc.address h ≠ 0 ∧ alloc.address h ∉ h.live) (hp : p ∈ h.live)
    (hout : p ∉ es) (hnum : ∀ e ∈ es, h.number e < (h.package p).num) :
    ∃ h', h.addToSet alloc p = some h' ∧ PutIn h es (alloc.address h) p h' := by
  obtain ⟨h', hadd, hring, helem, hbuffor, hpackage, hlive⟩ := Heap.addToSet_eq hroom hm hfresh p
  generalize alloc.address h = e at hfresh hring helem hbuffor hlive ⊢
  have he : e ∉ es := fun he => hfresh.2 (hm.elems e he)
  have hnew : (h'.setElem e).package = p := by
    rw [← comp_apply (f := SetElem.package), helem, update_self]
  have hold : ∀ a, a ≠ e → (h'.setElem a).package = (h.setElem a).package := fun a ha => by
    rw [← comp_apply (f := SetElem.package), helem, update_of_ne ha]
    rfl
  have hnumber : ∀ a ∈ es, h'.number a = h.number a := fun a ha => by
    unfold Heap.number
    rw [hold a (ne_of_mem_of_not_mem ha he), hpackage]
  refine ⟨h', hadd, ⟨by rw [hbuffor], hring, ?_, fun a ha => ?_, fun a ha => ?_, ?_⟩, by rw [hbuffor],
    hpackage, fun a => ?_, hlive⟩
  · exact hm.nodup.append (List.nodup_singleton e) (by simpa using he)
  · rw [hlive]
    rcases List.mem_append.1 ha with ha | ha
    · exact Finset.mem_insert_of_mem (hm.elems a ha)
    · rw [List.mem_singleton.1 ha]
      exact Finset.mem_insert_self _ _
  · rw [hlive, List.mem_append, List.mem_singleton, not_or]
    rcases List.mem_append.1 ha with ha | ha
    · obtain ⟨hmem, hnot⟩ := hm.packages a ha
      rw [hold a (ne_of_mem_of_not_mem ha he)]
      exact ⟨Finset.mem_insert_of_mem hmem, hnot, ne_of_mem_of_not_mem hmem hfresh.2⟩
    · rw [List.mem_singleton.1 ha, hnew]
      exact ⟨Finset.mem_insert_of_mem hp, hout, ne_of_mem_of_not_mem hp hfresh.2⟩
  · refine List.pairwise_append.2 ⟨?_, List.pairwise_singleton _ _, fun a ha b hb => ?_⟩
    · refine hm.ascending.imp_of_mem fun ha hb hab => ?_
      rwa [hnumber _ ha, hnumber _ hb]
    · have hlast : h'.number e = (h.package p).num := by
        unfold Heap.number
        rw [hnew, hpackage]
      rw [List.mem_singleton.1 hb, hnumber a ha, hlast]
      exact hnum a ha
  · split_ifs with ha
    · rw [ha, hnew]
    · exact hold a ha

end Push

end SikMimuw.Big
