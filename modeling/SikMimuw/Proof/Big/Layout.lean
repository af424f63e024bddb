import SikMimuw.Proof.Big.Memory

/-!
# How the memory is laid out

An `Arena` names the nodes of the ring, the elements of the set and the spare nodes, those that are
allocated and not linked. `Laid` says that these are blocks of their own, and how many more blocks
are in use that nothing refers to any more. Each step of `add_to_buffor` and of `printing_loop`
takes one layout to another.
-/

namespace SikMimuw.Big

open LinkedRing Function

structure Arena where
  nodes : List UInt64
  elems : List UInt64
  spare : List UInt64

/-- The nodes, linked or not. -/
def Arena.all (L : Arena) : List UInt64 := L.nodes ++ L.spare

/-- **The memory is laid out** as `L` says, and `leaked` more blocks are in use. -/
structure Laid (len : UInt64) (m : DataHeap) (L : Arena) (leaked : ℕ) : Prop where
  queue : IsQueue m.heap L.nodes
  owns : Owns m.heap L.all
  missing : Missing m.heap L.elems
  apart : ∀ e ∈ L.elems, e ∉ L.all.flatMap m.heap.blocks
  filled : ∀ p ∈ L.all, (m.heap.package p).data ≠ 0 →
    (m.bytes (m.heap.package p).data).length = len.toNat
  used : m.heap.live.card = (L.all.flatMap m.heap.blocks).length + L.elems.length + leaked

/-- The package of a node. -/
def DataHeap.view (m : DataHeap) (p : UInt64) : Receiver.Package where
  data := if (m.heap.package p).data = 0 then [] else m.bytes (m.heap.package p).data
  num := (m.heap.package p).num

variable {len x p pack data num e : UInt64} {m m' : DataHeap} {h h' : Heap} {L : Arena} {k : ℕ}
  {q r l es nodes spare : List UInt64} {alloc : Malloc}

/-! ### Blocks -/

theorem Owns.perm (ho : Owns h q) (hp : q.Perm r) : Owns h r := by
  have hb := hp.flatMap_right h.blocks
  exact ⟨hb.nodup_iff.1 ho.nodup, fun b hmem => ho.live b (hb.mem_iff.2 hmem)⟩

theorem Owns.of_append_left (ho : Owns h (q ++ r)) : Owns h q := by
  obtain ⟨hnodup, hlive⟩ := ho
  rw [List.flatMap_append] at hnodup hlive
  exact ⟨hnodup.of_append_left, fun b hb => hlive b (List.mem_append_left _ hb)⟩

/-- Two nodes have no block in common. -/
theorem Owns.blocks_disjoint (ho : Owns h q) {y b : UInt64} (hx : x ∈ q) (hy : y ∈ q) (hne : x ≠ y)
    (hbx : b ∈ h.blocks x) : b ∉ h.blocks y := by
  obtain ⟨pre, post, rfl⟩ := List.append_of_mem hx
  have hy' : y ∈ pre ++ post := by simpa [hne.symm] using hy
  have hd := List.disjoint_of_nodup_append (List.flatMap_cons ▸
    (ho.perm List.perm_middle).nodup)
  exact fun hby => hd hbx (List.mem_flatMap.2 ⟨y, hy', hby⟩)

theorem Heap.blocks_of_data (hdata : (h'.package p).data = (h.package p).data) :
    h'.blocks p = h.blocks p := by
  unfold blocks
  rw [hdata]

theorem DataHeap.view_congr (hdata : (m'.heap.package p).data = (m.heap.package p).data)
    (hnum : (m'.heap.package p).num = (m.heap.package p).num)
    (hbytes : m'.bytes (m.heap.package p).data = m.bytes (m.heap.package p).data) :
    m'.view p = m.view p := by
  unfold view
  rw [hdata, hnum, hbytes]

theorem view_keeps (hk : Keeps h h') (bytes : UInt64 → List UInt8) :
    DataHeap.view ⟨h', bytes⟩ = DataHeap.view ⟨h, bytes⟩ := by
  funext p
  exact DataHeap.view_congr (congrFun hk.data p) (congrFun hk.num p) rfl

/-- More blocks are allocated. -/
theorem Missing.grow (hm : Missing h es) (hset : h'.buffor.set = h.buffor.set)
    (helem : h'.setElem = h.setElem) (hlive : ∀ b ∈ h.live, b ∈ h'.live)
    (hnum : ∀ p ∈ h.live, (h'.package p).num = (h.package p).num) : Missing h' es := by
  refine hm.congr hset helem (fun e he => ?_) fun e he => ?_
  · exact ⟨hlive _ (hm.elems e he), hlive _ (hm.packages e he).1⟩
  · unfold Heap.number
    rw [helem, hnum _ (hm.packages e he).1]

theorem Missing.keeps (hm : Missing h es) (hk : Keeps h h') : Missing h' es :=
  hm.grow hk.set hk.setElem (fun b hb => by rwa [hk.live]) fun p _ => congrFun hk.num p

theorem Heap.mem_blocks_iff {b : UInt64} :
    b ∈ h.blocks p ↔ b = p ∨ b = (h.package p).data ∧ (h.package p).data ≠ 0 := by
  unfold blocks
  split_ifs with h0
  · simp only [List.mem_cons, List.not_mem_nil, or_false]
    tauto
  · simp only [List.mem_singleton]
    tauto

theorem Heap.length_blocks_le : (h.blocks p).length ≤ 2 := by
  unfold blocks
  split_ifs <;> simp

/-- The blocks of a new package. -/
theorem blocks_new (hf : Fresh h pack data) (hdata : (h'.package pack).data = data)
    (hlive : ∀ b, b ∈ h'.live ↔ b ∈ h.live ∨ b = pack ∨ b = data ∧ data ≠ 0)
    (hnodup : (h'.blocks pack).Nodup) : (∀ b ∈ h'.blocks pack, b ∉ h.live) ∧
      h'.live.card = h.live.card + (h'.blocks pack).length := by
  have hfresh : ∀ b ∈ h'.blocks pack, b ∉ h.live := by
    intro b hb
    rw [Heap.mem_blocks_iff, hdata] at hb
    rcases hb with rfl | ⟨rfl, h0⟩
    · exact hf.2.1
    · exact (hf.2.2.resolve_left h0).1
  have hunion : h'.live = h.live ∪ (h'.blocks pack).toFinset := by
    ext b
    rw [hlive, Finset.mem_union, List.mem_toFinset, Heap.mem_blocks_iff, hdata]
  refine ⟨hfresh, ?_⟩
  rw [hunion, Finset.card_union_of_disjoint, List.toFinset_card_of_nodup hnodup]
  exact Finset.disjoint_right.2 fun b hb => hfresh b (List.mem_toFinset.1 hb)

/-! ### The steps -/

/-- **A node is linked or unlinked**: it changes sides. -/
theorem Laid.keeps (hl : Laid len m L k) (hk : Keeps m.heap h') (hq : IsQueue h' nodes)
    (hperm : L.all.Perm (nodes ++ spare)) : Laid len ⟨h', m.bytes⟩ ⟨nodes, L.elems, spare⟩ k := by
  have hblocks : h'.blocks = m.heap.blocks := Heap.blocks_congr hk.data
  have hb := hperm.flatMap_right m.heap.blocks
  refine ⟨hq, (hl.owns.perm hperm).congr hk.data hk.live, hl.missing.keeps hk, fun e he => ?_,
    fun p hp hdata => ?_, ?_⟩
  · show e ∉ (nodes ++ spare).flatMap h'.blocks
    rw [hblocks, ← hb.mem_iff]
    exact hl.apart e he
  · have hd : (h'.package p).data = (m.heap.package p).data := congrFun hk.data p
    rw [hd] at hdata ⊢
    exact hl.filled p (hperm.mem_iff.2 hp) hdata
  · show h'.live.card = ((nodes ++ spare).flatMap h'.blocks).length + _ + k
    rw [hblocks, ← hb.length_eq, hk.live]
    exact hl.used

/-- `add_to_buffer_end`. -/
theorem Laid.link (hl : Laid len m ⟨x :: l, es, pack :: r⟩ k) :
    ∃ h', addToBufferEnd m.heap pack = some h' ∧ Keeps m.heap h' ∧
      Laid len ⟨h', m.bytes⟩ ⟨x :: l ++ [pack], es, r⟩ k := by
  have hperm : (x :: l) ++ pack :: r = (x :: l ++ [pack]) ++ r := by simp
  have ho := hl.owns
  rw [Arena.all, hperm] at ho
  obtain ⟨h', hadd, hq, hk⟩ := hl.queue.push ho.of_append_left
  exact ⟨h', hadd, hk, hl.keeps hk hq (List.Perm.of_eq hperm)⟩

/-- `add_to_buffer_first`. -/
theorem Laid.first (hl : Laid len m ⟨[], [], pack :: r⟩ k) (hlen : len ≠ 0) :
    ∃ h', addToBufferFirst m.heap pack len = some h' ∧
      Keeps (m.heap.setBuffor fun b => { b with size := b.maxData / len }) h' ∧
      Laid len ⟨h', m.bytes⟩ ⟨[pack], [], r⟩ k := by
  have ho : Owns m.heap ([pack] ++ r) := hl.owns
  have hpack : pack ∈ m.heap.live := ho.mem_live List.mem_cons_self
  have hset : m.heap.buffor.set = 0 := hl.missing.set
  obtain ⟨h', hadd, -, hh⟩ := addToBufferFirst_holds hset ho.of_append_left hlen
  have hk : Keeps (m.heap.setBuffor fun b => { b with size := b.maxData / len }) h' := by
    simp only [addToBufferFirst, if_neg hlen, Option.bind_eq_bind, Option.bind_eq_some_iff] at hadd
    obtain ⟨h₁, hs₁, h₂, hs₂, hret⟩ := hadd
    cases hret
    exact ((store_keeps (by simp) hs₁).trans (store_keeps (by simp) hs₂)).trans
      (setBuffor_keeps rfl rfl rfl)
  have hq : IsQueue h' [pack] := ⟨hh.packages, hh.fill, rfl, hh.ring, hh.owns.congr rfl rfl⟩
  -- the new `size` is not looked at
  have hl₁ : Laid len ⟨m.heap.setBuffor fun b => { b with size := b.maxData / len }, m.bytes⟩
      ⟨[], [], pack :: r⟩ k := by
    refine ⟨⟨hl.queue.packages, hl.queue.fill, rfl, hl.queue.ring, hl.queue.owns.congr rfl rfl⟩,
      hl.owns.congr rfl rfl, ?_, hl.apart, hl.filled, hl.used⟩
    exact ⟨hset, hl.missing.ring, hl.missing.nodup, hl.missing.elems, hl.missing.packages,
      hl.missing.ascending⟩
  exact ⟨h', hadd, hk, hl₁.keeps hk hq (List.Perm.refl _)⟩

/-- `takeFirst`. -/
theorem Laid.take (hl : Laid len m ⟨x :: l, es, r⟩ k) :
    ∃ h', takeFirst m.heap = some (x, h') ∧ Keeps m.heap h' ∧
      Laid len ⟨h', m.bytes⟩ ⟨l, es, x :: r⟩ k := by
  obtain ⟨h', htake, hq, hk⟩ := hl.queue.take
  exact ⟨h', htake, hk, hl.keeps hk hq List.perm_middle.symm⟩

/-- A spare node is forgotten. -/
theorem Laid.leak (hl : Laid len m ⟨q, es, x :: r⟩ k) :
    Laid len m ⟨q, es, r⟩ (k + (m.heap.blocks x).length) := by
  have hperm : (q ++ x :: r).Perm (x :: (q ++ r)) := List.perm_middle
  have hb := hperm.flatMap_right m.heap.blocks
  rw [List.flatMap_cons] at hb
  refine ⟨hl.queue, (hl.owns.perm hperm).of_cons, hl.missing, fun e he hmem => ?_, fun p hp => ?_, ?_⟩
  · exact hl.apart e he (hb.mem_iff.2 (List.mem_append_right _ hmem))
  · exact hl.filled p (hperm.mem_iff.2 (List.mem_cons_of_mem _ hp))
  · have hlen := hb.length_eq
    rw [List.length_append] at hlen
    have hused := hl.used
    simp only [Arena.all] at hused ⊢
    omega

/-- The blocks of the layout are in use. -/
theorem Laid.block_live (hl : Laid len m L k) {b : UInt64} (hp : p ∈ L.all) (hb : b ∈ m.heap.blocks p) :
    b ∈ m.heap.live := hl.owns.live b (List.mem_flatMap.2 ⟨p, hp, hb⟩)

theorem Laid.data_live (hl : Laid len m L k) (hp : p ∈ L.all) (h0 : (m.heap.package p).data ≠ 0) :
    (m.heap.package p).data ∈ m.heap.live := by
  refine hl.block_live hp ?_
  unfold Heap.blocks
  rw [if_pos h0]
  exact List.mem_cons_self

/-- A package without data is one that has no block for them. -/
theorem Laid.view_data (hl : Laid len m L k) (hlen : 0 < len.toNat) (hp : p ∈ L.all) :
    (m.view p).data = [] ↔ (m.heap.package p).data = 0 := by
  unfold DataHeap.view
  dsimp only
  split_ifs with h0
  · exact iff_of_true rfl h0
  · refine iff_of_false (fun hnil => ?_) h0
    have hd := hl.filled p hp h0
    rw [hnil, List.length_nil] at hd
    omega

/-- New contents of a block that is not in use leave the packages as they are. -/
theorem Laid.view_fresh (hl : Laid len m L k) (hp : p ∈ L.all) {bytes : UInt64 → List UInt8}
    (hpackage : h'.package p = m.heap.package p)
    (hbytes : ∀ b ∈ m.heap.live, bytes b = m.bytes b) : DataHeap.view ⟨h', bytes⟩ p = m.view p := by
  unfold DataHeap.view
  dsimp only
  rw [hpackage]
  split_ifs with h0
  · rfl
  · rw [hbytes _ (hl.data_live hp h0)]

theorem malloc_setElem (hm : h.malloc p = some h') : h'.setElem = h.setElem := by
  unfold Heap.malloc at hm
  split at hm
  · cases hm
    rfl
  · cases hm

theorem newPackage_setElem (hnew : newPackage h pack data num = some h') : h'.setElem = h.setElem := by
  have hstore : ∀ {h h' : Heap} {f : Package → Package},
      h.store pack f = some h' → h'.setElem = h.setElem := by
    intro h h' f hst
    unfold Heap.store at hst
    split at hst
    · cases hst
      rfl
    · cases hst
  by_cases h0 : data = 0
  · simp only [newPackage, if_pos h0, Option.bind_eq_bind, Option.bind_eq_some_iff] at hnew
    obtain ⟨h₁, hm₁, _, ⟨⟩, hst⟩ := hnew
    exact (hstore hst).trans (malloc_setElem hm₁)
  · simp only [newPackage, if_neg h0, Option.bind_eq_bind, Option.bind_eq_some_iff] at hnew
    obtain ⟨h₁, hm₁, h₂, hm₂, hst⟩ := hnew
    exact (hstore hst).trans ((malloc_setElem hm₂).trans (malloc_setElem hm₁))

/-- **A new package** is a spare node. -/
theorem Laid.new (hl : Laid len m ⟨q, es, r⟩ k) (hf : Fresh m.heap pack data) (num : UInt64)
    {bytes : UInt64 → List UInt8} (hbytes : ∀ b ∈ m.heap.live, bytes b = m.bytes b)
    (hdata : data ≠ 0 → (bytes data).length = len.toNat) :
    ∃ h', newPackage m.heap pack data num = some h' ∧ h'.buffor = m.heap.buffor ∧
      h'.setElem = m.heap.setElem ∧ (∀ p ∈ m.heap.live, h'.package p = m.heap.package p) ∧
      (h'.package pack).data = data ∧ (h'.package pack).num = num ∧
      h'.live.card ≤ m.heap.live.card + 2 ∧ Laid len ⟨h', bytes⟩ ⟨q, es, pack :: r⟩ k := by
  obtain ⟨h', hnew, hbuffor, -, hpackage, hlive⟩ := newPackage_eq num hf
  obtain ⟨h'', hnew', -, -, hnext, hprev, ho⟩ := hl.owns.new num hf
  obtain rfl : h' = h'' := by rwa [hnew, Option.some.injEq] at hnew'
  have hsame : ∀ p ∈ m.heap.live, h'.package p = m.heap.package p := fun p hp => by
    rw [hpackage, update_of_ne (ne_of_mem_of_not_mem hp hf.2.1)]
  have hpack : h'.package pack = { m.heap.package pack with data := data, num := num } := by
    rw [hpackage, update_self]
  have helem := newPackage_setElem hnew
  have hperm : ((q ++ r) ++ [pack]).Perm (q ++ pack :: r) := by
    rw [List.append_assoc]
    exact (List.perm_append_comm : (r ++ [pack]).Perm _).append_left q
  have hb := hperm.flatMap_right h'.blocks
  have hold : ∀ p ∈ q ++ r, h'.blocks p = m.heap.blocks p := fun p hp =>
    Heap.blocks_of_data (by rw [hsame p (hl.owns.mem_live hp)])
  have hblocks : (q ++ r).flatMap h'.blocks = (q ++ r).flatMap m.heap.blocks := List.flatMap_congr hold
  have hnodup : (h'.blocks pack).Nodup := by
    have hn := ho.nodup
    rw [List.flatMap_append, List.flatMap_singleton] at hn
    exact hn.of_append_right
  obtain ⟨hfresh, hcard⟩ := blocks_new hf (by rw [hpack]) hlive hnodup
  have htwo : (h'.blocks pack).length ≤ 2 := Heap.length_blocks_le
  refine ⟨h', hnew, hbuffor, helem, hsame, by rw [hpack], by rw [hpack], by omega, ?_⟩
  refine ⟨?_, ho.perm hperm, ?_, fun e he hin => ?_, fun p hp h0 => ?_, ?_⟩
  · exact hl.queue.congr (by rw [hbuffor]) (by rw [hbuffor]) hnext hprev
      (ho.of_append_left.of_append_left)
  · refine hl.missing.grow (by rw [hbuffor]) helem (fun b hb => (hlive b).2 (Or.inl hb)) fun p hp => ?_
    rw [hsame p hp]
  · rw [Arena.all, ← hb.mem_iff, List.flatMap_append, hblocks, List.mem_append,
      List.flatMap_singleton] at hin
    rcases hin with hin | hin
    · exact hl.apart e he hin
    · exact hfresh e hin (hl.missing.elems e he)
  · dsimp only at h0 ⊢
    rw [Arena.all, ← hperm.mem_iff, List.mem_append, List.mem_singleton] at hp
    rcases hp with hp | rfl
    · rw [hsame p (hl.owns.mem_live hp)] at h0 ⊢
      rw [hbytes _ (hl.data_live hp h0)]
      exact hl.filled p hp h0
    · rw [hpack] at h0 ⊢
      exact hdata h0
  · have hused := hl.used
    rw [hcard, hused]
    have hlen := hb.length_eq
    rw [List.flatMap_append, hblocks, List.length_append, List.flatMap_singleton] at hlen
    simp only [Arena.all]
    omega

/-- A node is no element, and no block of it is one. -/
theorem Laid.notMem_elems (hl : Laid len m L k) (hp : p ∈ L.all) : p ∉ L.elems := fun he =>
  hl.apart p he (List.mem_flatMap.2 ⟨p, hp, m.heap.mem_blocks p⟩)

/-- **The packages stay**, while elements and spare nodes come or go. -/
theorem Laid.of_package_eq {es' r' : List UInt64} {k' : ℕ} (hl : Laid len m ⟨q, es, r⟩ k)
    (hpackage : h'.package = m.heap.package)
    (hfirst : h'.buffor.packages = m.heap.buffor.packages) (hfill : h'.buffor.fill = m.heap.buffor.fill)
    (hsub : ∀ p ∈ q ++ r', p ∈ q ++ r) (howns : Owns h' (q ++ r')) (hmissing : Missing h' es')
    (hapart : ∀ e ∈ es', e ∉ (q ++ r').flatMap m.heap.blocks)
    (hused : h'.live.card = ((q ++ r').flatMap m.heap.blocks).length + es'.length + k') :
    Laid len ⟨h', m.bytes⟩ ⟨q, es', r'⟩ k' := by
  have hblocks : h'.blocks = m.heap.blocks := Heap.blocks_congr (by rw [hpackage])
  refine ⟨?_, howns, hmissing, fun e he hin => ?_, fun p hp h0 => ?_, ?_⟩
  · refine hl.queue.congr hfirst hfill ?_ ?_ howns.of_append_left
    · rw [hpackage]
    · rw [hpackage]
  · dsimp only [Arena.all] at hin
    rw [hblocks] at hin
    exact hapart e he hin
  · dsimp only at h0 ⊢
    rw [hpackage] at h0 ⊢
    exact hl.filled p (hsub p hp) h0
  · dsimp only [Arena.all]
    rw [hblocks]
    exact hused

/-- **A node is noted as missing** (`add_to_set`). -/
theorem Laid.note (hl : Laid len m ⟨q, es, r⟩ k)
    (hroom : sizeofSetElem ≤ alloc.room sizeofPointer)
    (hfresh : alloc.address m.heap ≠ 0 ∧ alloc.address m.heap ∉ m.heap.live) (hp : p ∈ q)
    (hnum : ∀ e ∈ es, m.heap.number e < (m.heap.package p).num) :
    ∃ h', m.heap.addToSet alloc p = some h' ∧ PutIn m.heap es (alloc.address m.heap) p h' ∧
      Laid len ⟨h', m.bytes⟩ ⟨q, es ++ [alloc.address m.heap], r⟩ k := by
  have hall : p ∈ q ++ r := List.mem_append_left _ hp
  obtain ⟨h', hadd, hput⟩ := hl.missing.push hroom hfresh (hl.owns.mem_live hall) (hl.notMem_elems hall) hnum
  have hblocks : h'.blocks = m.heap.blocks := Heap.blocks_congr (by rw [hput.package])
  have hsub : ∀ b ∈ m.heap.live, b ∈ h'.live := fun b hb => by
    rw [hput.live]
    exact Finset.mem_insert_of_mem hb
  have howns : Owns h' (q ++ r) := by
    constructor
    · rw [hblocks]
      exact hl.owns.nodup
    · rw [hblocks]
      exact fun b hb => hsub b (hl.owns.live b hb)
  refine ⟨h', hadd, hput, hl.of_package_eq hput.package (by rw [hput.buffor]) (by rw [hput.buffor])
    (fun _ hp => hp) howns hput.missing (fun e he hin => ?_) ?_⟩
  · rcases List.mem_append.1 he with he | he
    · exact hl.apart e he hin
    · rw [List.mem_singleton.1 he] at hin
      exact hfresh.2 (hl.owns.live _ hin)
  · have hused := hl.used
    simp only [Arena.all] at hused
    rw [hput.live, Finset.card_insert_of_notMem hfresh.2, List.length_append, List.length_singleton]
    omega

/-- **The first missing package is found**, and its element freed. -/
theorem Laid.unnote (hl : Laid len m ⟨q, e :: es, r⟩ k) (ht : TakenOut m.heap (e :: es) e h') :
    Laid len ⟨h', m.bytes⟩ ⟨q, es, r⟩ k := by
  obtain ⟨hmissing, hbuffor, hpackage, -, hlive, -⟩ := ht
  rw [List.erase_cons_head] at hmissing
  have hblocks : h'.blocks = m.heap.blocks := Heap.blocks_congr (by rw [hpackage])
  have howns : Owns h' (q ++ r) := by
    constructor
    · rw [hblocks]
      exact hl.owns.nodup
    · rw [hblocks, hlive]
      refine fun b hb => Finset.mem_erase_of_ne_of_mem ?_ (hl.owns.live b hb)
      rintro rfl
      exact hl.apart b List.mem_cons_self hb
  refine hl.of_package_eq hpackage (by rw [hbuffor]) (by rw [hbuffor]) (fun _ hp => hp) howns hmissing
    (fun a ha => hl.apart a (List.mem_cons_of_mem _ ha)) ?_
  have hused := hl.used
  have hcard := Finset.card_erase_add_one (hl.missing.elems e List.mem_cons_self)
  simp only [Arena.all, List.length_cons] at hused
  rw [hlive]
  omega

/-- **A spare node is freed** (`remove_package`). -/
theorem Laid.remove (hl : Laid len m ⟨q, es, x :: r⟩ k)
    (hq : ∀ e ∈ es, (m.heap.setElem e).package ∈ q) :
    ∃ h', removePackage m.heap x = some h' ∧ h'.buffor = m.heap.buffor ∧
      h'.package = m.heap.package ∧ h'.setElem = m.heap.setElem ∧
      Laid len ⟨h', m.bytes⟩ ⟨q, es, r⟩ k := by
  have hperm : (q ++ x :: r).Perm (x :: (q ++ r)) := List.perm_middle
  have ho := hl.owns.perm hperm
  have hx : Owns m.heap [x] := Owns.of_append_left (r := q ++ r) ho
  obtain ⟨h', hremove, hbuffor, hpackage, helem, hlive, hcard⟩ := removePackage_live hx
  have hblocks : h'.blocks = m.heap.blocks := Heap.blocks_congr (by rw [hpackage])
  have hkeep : ∀ p ∈ q ++ r, ∀ b ∈ m.heap.blocks p, b ∈ h'.live := by
    intro p hp b hb
    have hpx : p ≠ x := ne_of_mem_of_not_mem hp (List.nodup_cons.1 ho.nodup_nodes).1
    have hout := ho.blocks_disjoint (List.mem_cons_of_mem _ hp) List.mem_cons_self hpx hb
    rw [hlive, Finset.mem_sdiff, List.mem_toFinset]
    exact ⟨ho.of_cons.live b (List.mem_flatMap.2 ⟨p, hp, hb⟩), hout⟩
  have howns : Owns h' (q ++ r) := by
    constructor
    · rw [hblocks]
      exact ho.of_cons.nodup
    · rw [hblocks]
      intro b hb
      obtain ⟨p, hp, hbp⟩ := List.mem_flatMap.1 hb
      exact hkeep p hp b hbp
  have hb := hperm.flatMap_right m.heap.blocks
  rw [List.flatMap_cons] at hb
  refine ⟨h', hremove, hbuffor, hpackage, helem, hl.of_package_eq hpackage (by rw [hbuffor])
    (by rw [hbuffor]) (fun p hp => hperm.mem_iff.2 (List.mem_cons_of_mem _ hp)) howns ?_
    (fun e he hin => ?_) ?_⟩
  · refine hl.missing.congr (by rw [hbuffor]) helem (fun e he => ⟨?_, ?_⟩) fun e he => ?_
    · rw [hlive, Finset.mem_sdiff, List.mem_toFinset]
      exact ⟨hl.missing.elems e he, fun hin => hl.apart e he (hb.mem_iff.2 (List.mem_append_left _ hin))⟩
    · exact hkeep _ (List.mem_append_left _ (hq e he)) _ (m.heap.mem_blocks _)
    · unfold Heap.number
      rw [helem, hpackage]
  · exact hl.apart e he (hb.mem_iff.2 (List.mem_append_right _ hin))
  · have hused := hl.used
    have hlen := hb.length_eq
    rw [List.length_append] at hlen
    simp only [Arena.all] at hused
    omega

/-- The stores of lines 102-105. -/
theorem setData_eq {block : UInt64} (hfresh : block ≠ 0 ∧ block ∉ h.live) (hp : p ∈ h.live) :
    ∃ h₁ h', h.malloc block = some h₁ ∧ (h₁.store p fun a => { a with data := block }) = some h' ∧
      h'.buffor = h.buffor ∧ h'.setElem = h.setElem ∧ h'.live = insert block h.live ∧
      h'.package = update h.package p { h.package p with data := block } :=
  ⟨_, _, Heap.malloc_eq hfresh, Heap.store_eq (Finset.mem_insert_of_mem hp), rfl, rfl, rfl, rfl⟩

/-- A package without data gets a block, and no other package is changed. -/
theorem Owns.setData (ho : Owns h l) (hp : p ∈ l) (h0 : (h.package p).data = 0) {block : UInt64}
    (hfresh : block ≠ 0 ∧ block ∉ h.live) (hlive : h'.live = insert block h.live)
    (hpackage : h'.package = update h.package p { h.package p with data := block }) :
    Owns h' l ∧ (l.flatMap h'.blocks).Perm (block :: l.flatMap h.blocks) := by
  obtain ⟨pre, post, hsplit⟩ := List.append_of_mem hp
  have hperm : l.Perm (p :: (pre ++ post)) := by
    rw [hsplit]
    exact List.perm_middle
  have hpout : p ∉ pre ++ post := (List.nodup_cons.1 (ho.perm hperm).nodup_nodes).1
  have hnew : h'.blocks p = block :: h.blocks p := by
    unfold Heap.blocks
    rw [hpackage, update_self, if_pos hfresh.1, if_neg (not_not.2 h0)]
  have hrest : (pre ++ post).flatMap h'.blocks = (pre ++ post).flatMap h.blocks :=
    List.flatMap_congr fun a ha =>
      Heap.blocks_of_data (by rw [hpackage, update_of_ne (ne_of_mem_of_not_mem ha hpout)])
  have hb : (l.flatMap h'.blocks).Perm (block :: l.flatMap h.blocks) := by
    refine (hperm.flatMap_right h'.blocks).trans ?_
    rw [List.flatMap_cons, hnew, hrest, List.cons_append, ← List.flatMap_cons]
    exact (hperm.flatMap_right h.blocks).symm.cons block
  refine ⟨⟨hb.nodup_iff.2 (List.nodup_cons.2 ⟨fun hin => hfresh.2 (ho.live _ hin), ho.nodup⟩),
    fun b hin => ?_⟩, hb⟩
  rw [hlive, Finset.mem_insert]
  exact (List.mem_cons.1 (hb.mem_iff.1 hin)).imp_right (ho.live b)

/-- **Data for a missing package**: a new block holds them. -/
theorem Laid.setData (hl : Laid len m ⟨q, es, r⟩ k) (hp : p ∈ q) (h0 : (m.heap.package p).data = 0)
    {block : UInt64} (hfresh : block ≠ 0 ∧ block ∉ m.heap.live) {data : List UInt8}
    (hdata : data.length = len.toNat) :
    ∃ h₁ h', m.heap.malloc block = some h₁ ∧
      (h₁.store p fun a => { a with data := block }) = some h' ∧ h'.buffor = m.heap.buffor ∧
      h'.setElem = m.heap.setElem ∧
      h'.package = update m.heap.package p { m.heap.package p with data := block } ∧
      Laid len ⟨h', update m.bytes block data⟩ ⟨q, es, r⟩ k := by
  have hall : p ∈ q ++ r := List.mem_append_left _ hp
  obtain ⟨h₁, h', hm, hst, hbuffor, helem, hlive, hpackage⟩ :=
    setData_eq hfresh (hl.owns.mem_live hall)
  refine ⟨h₁, h', hm, hst, hbuffor, helem, hpackage, ?_⟩
  have hpack : h'.package p = { m.heap.package p with data := block } := by
    rw [hpackage, update_self]
  have hold : ∀ a, a ≠ p → h'.package a = m.heap.package a := fun a ha => by
    rw [hpackage, update_of_ne ha]
  obtain ⟨howns, hb⟩ := hl.owns.setData hall h0 hfresh hlive hpackage
  refine ⟨?_, howns, ?_, fun e he hin => ?_, fun a ha hne => ?_, ?_⟩
  · refine hl.queue.congr (by rw [hbuffor]) (by rw [hbuffor]) ?_ ?_ howns.of_append_left
    · rw [hpackage, comp_update_of_eq]
      rfl
    · rw [hpackage, comp_update_of_eq]
      rfl
  · refine hl.missing.grow (by rw [hbuffor]) helem (fun b hb => ?_) fun a _ => ?_
    · rw [hlive]
      exact Finset.mem_insert_of_mem hb
    · rw [hpackage]
      exact apply_update_of_eq rfl
  · rcases List.mem_cons.1 (hb.mem_iff.1 hin) with rfl | hin
    · exact hfresh.2 (hl.missing.elems e he)
    · exact hl.apart e he hin
  · dsimp only at hne ⊢
    by_cases hap : a = p
    · rw [hap, hpack]
      dsimp only
      rw [update_self, hdata]
    · rw [hold a hap] at hne ⊢
      rw [update_of_ne (ne_of_mem_of_not_mem (hl.data_live ha hne) hfresh.2)]
      exact hl.filled a ha hne
  · have hused := hl.used
    have hlen := hb.length_eq
    rw [List.length_cons] at hlen
    simp only [Arena.all] at hused hlen ⊢
    rw [hlive, Finset.card_insert_of_notMem hfresh.2]
    omega

/-- **`reset_buffor`** frees all but the spare nodes. -/
theorem Laid.reset (hl : Laid len m ⟨q, es, r⟩ k) :
    ∃ h', (∀ n, q.length < n → es.length < n → resetBuffor n m.heap = some h') ∧
      DataHeap.view ⟨h', m.bytes⟩ = m.view ∧ h'.buffor.size = m.heap.buffor.size ∧
      h'.buffor.maxData = m.heap.buffor.maxData ∧ Laid len ⟨h', m.bytes⟩ ⟨[], [], r⟩ k := by
  obtain ⟨h₁, hloop, hq₁, hnum₁, hdata₁, helem₁, hlive₁, hset₁, hsize₁, hmax₁⟩ :=
    resetLoop_live hl.queue
  have hapart : ∀ e ∈ es, e ∉ q.flatMap m.heap.blocks ∧ e ∉ r.flatMap m.heap.blocks := by
    intro e he
    have hout := hl.apart e he
    rwa [Arena.all, List.flatMap_append, List.mem_append, not_or] at hout
  have helems : ∀ e ∈ es, e ∈ h₁.live := fun e he => by
    rw [hlive₁, Finset.mem_sdiff, List.mem_toFinset]
    exact ⟨hl.missing.elems e he, (hapart e he).1⟩
  have hring : IsRing (SetElem.next ∘ h₁.setElem) (SetElem.prev ∘ h₁.setElem) es := by
    rw [helem₁]
    exact hl.missing.ring
  obtain ⟨h', hdelete, hbuffor, hpackage, hlive⟩ :=
    deleteSet_live hring (hset₁.trans hl.missing.set) hl.missing.nodup helems
  have hdata : Package.data ∘ h'.package = Package.data ∘ m.heap.package := by rw [hpackage, hdata₁]
  have hnum : Package.num ∘ h'.package = Package.num ∘ m.heap.package := by rw [hpackage, hnum₁]
  have hblocks : h'.blocks = m.heap.blocks := Heap.blocks_congr hdata
  obtain ⟨hnodup, hown⟩ := hl.owns
  rw [Arena.all, List.flatMap_append] at hnodup hown
  have hdisj := List.disjoint_of_nodup_append hnodup
  -- what is freed has a block for every node and every element
  have hgone : h'.live = m.heap.live \ (q.flatMap m.heap.blocks ++ es).toFinset := by
    rw [hlive, hlive₁, List.toFinset_append, sdiff_sdiff_left]
    rfl
  have hall : (q.flatMap m.heap.blocks ++ es).Nodup :=
    hnodup.of_append_left.append hl.missing.nodup fun b hb he => (hapart b he).1 hb
  have hcard : h'.live.card + (q.flatMap m.heap.blocks ++ es).length = m.heap.live.card := by
    rw [hgone, ← List.toFinset_card_of_nodup hall]
    refine Finset.card_sdiff_add_card_eq_card fun b hb => ?_
    rw [List.mem_toFinset, List.mem_append] at hb
    exact hb.elim (fun hb => hown b (List.mem_append_left _ hb)) (hl.missing.elems b)
  have howns : Owns h' r := by
    constructor
    · rw [hblocks]
      exact hnodup.of_append_right
    · rw [hblocks]
      intro b hb
      rw [hgone, Finset.mem_sdiff, List.mem_toFinset, List.mem_append, not_or]
      exact ⟨hown b (List.mem_append_right _ hb), fun hq => hdisj hq hb,
        fun he => (hapart b he).2 hb⟩
  refine ⟨h', fun n hq hn => ?_, ?_, ?_, ?_, ⟨?_, howns, ?_, by simp, fun p hp h0 => ?_, ?_⟩⟩
  · simp only [resetBuffor, hloop n hq, Option.bind_eq_bind, Option.bind_some]
    exact hdelete n hn
  · funext p
    exact DataHeap.view_congr (congrFun hdata p) (congrFun hnum p) rfl
  · rw [hbuffor]
    exact hsize₁
  · rw [hbuffor]
    exact hmax₁
  · refine hq₁.congr (by rw [hbuffor]) (by rw [hbuffor]) (by rw [hpackage]) (by rw [hpackage]) ?_
    exact ⟨List.nodup_nil, by simp⟩
  · exact ⟨by rw [hbuffor]; rfl, isRing_nil, List.nodup_nil, by simp, by simp, List.Pairwise.nil⟩
  · have hd : (h'.package p).data = (m.heap.package p).data := congrFun hdata p
    dsimp only at h0 ⊢
    rw [hd] at h0 ⊢
    exact hl.filled p (List.mem_append_right _ hp) h0
  · have hused := hl.used
    rw [List.length_append] at hcard
    simp only [Arena.all, List.flatMap_append, List.length_append, List.nil_append, List.length_nil]
      at hused ⊢
    rw [hblocks]
    omega

end SikMimuw.Big
