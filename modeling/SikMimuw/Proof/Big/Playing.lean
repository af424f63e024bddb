import SikMimuw.Lib.Run
import SikMimuw.Proof.Big.Reassembly

/-!
# The C receiver's threads and its buffer

What the receiving thread and the printing thread do with the buffer, in any order, is what they do
with a list of packages (`big_refines`): no pointer is followed that leads nowhere, no block is
freed twice, and the blocks that nothing frees are counted. The printing thread frees a package
when it has written it, while the receiving thread goes on.
-/

namespace SikMimuw.Big

open Function Lts

/-- What the buffer is for, the package that the printing thread has in hand, and its output. -/
structure Playing where
  view : View
  package : Option Receiver.Package
  written : List UInt8

/-- **A turn.** A package without data is the end of all of them, and its node is lost. -/
def Playing.turn (len : UInt64) (s : Playing) : Turn → Option Playing
  | .add num data =>
    if data.length = len.toNat ∧ s.view.Accepts len num then
      some { s with view := s.view.add num data }
    else none
  | .take =>
    match s.view.packages, s.package with
    | p :: ps, none =>
      if p.data = [] then
        some { s with view := { s.view with packages := [], leaked := s.view.leaked + 1 } }
      else some { s with view := { s.view with packages := ps }, package := some p }
    | _, _ => none
  | .write => s.package.map fun p => ⟨s.view, none, s.written ++ p.data⟩
  | .reset => some { s with view := { s.view with packages := [] } }

/-- **The process plays what it is for.** -/
structure Plays (len : UInt64) (s : Process) (t : Playing) : Prop where
  shows : ∃ q es, Shows len s.memory ⟨q, es, (s.package.map Prod.fst).toList⟩ t.view
  package : s.package.map (fun p => (s.memory.view p.1, p.2)) = t.package.map fun p => (p, len)
  data : ∀ p ∈ t.package, p.data ≠ []
  written : s.written = t.written

variable {alloc : Malloc} {len max num : UInt64} {s s' : Process} {t t' : Playing}
  {v : View} {data : List UInt8} {n k : ℕ} {e : Turn} {ts : List Turn}

/-! ### The turns -/

theorem Playing.add_eq (hst : t.turn len (.add num data) = some t') :
    (data.length = len.toNat ∧ t.view.Accepts len num) ∧
      t' = { t with view := t.view.add num data } := by
  simp only [Playing.turn] at hst
  split at hst
  case isTrue h =>
    cases hst
    exact ⟨h, rfl⟩
  case isFalse => cases hst

theorem Playing.take_eq (hst : t.turn len .take = some t') :
    ∃ p ps, t.view.packages = p :: ps ∧ t.package = none ∧
      t' = if p.data = [] then
          { t with view := { t.view with packages := [], leaked := t.view.leaked + 1 } }
        else { t with view := { t.view with packages := ps }, package := some p } := by
  simp only [Playing.turn] at hst
  split at hst
  case h_1 p ps hp hpackage =>
    refine ⟨p, ps, hp, hpackage, ?_⟩
    split_ifs at hst ⊢
    · cases hst
      rfl
    · cases hst
      rfl
  case h_2 => cases hst

/-! ### The size -/

/-- The buffer has the size that the length of the packets gives it, unless none has come yet. After
`k` turns `2 * k` blocks are lost at most. -/
structure Steady (len max : UInt64) (k : ℕ) (v : View) : Prop where
  maxData : v.maxData = max
  size : v.size = (max / len).toNat ∨ v.packages = [] ∧ v.size = 0
  leaked : v.leaked ≤ 2 * k

theorem Steady.insert (hv : Steady len max k v) (hdata : data.length = len.toNat) :
    Steady len max (k + 1) (v.insert num data) := by
  obtain ⟨hmax, hsize, hleaked⟩ := hv
  have hofNat : UInt64.ofNat data.length = len := by rw [hdata, UInt64.ofNat_toNat]
  unfold View.insert
  rw [hofNat]
  cases hback : v.packages.getLast? with
  | none => exact ⟨hmax, Or.inl (by rw [hmax]), by dsimp only; omega⟩
  | some back =>
    have hsize := hsize.resolve_right fun h => by
      rw [h.1] at hback
      cases hback
    dsimp only
    split_ifs
    · exact ⟨hmax, Or.inl hsize, by dsimp only; omega⟩
    · exact ⟨hmax, Or.inl hsize, by dsimp only; omega⟩

theorem Steady.add (hv : Steady len max k v) (hdata : data.length = len.toNat) :
    Steady len max (k + 1) (v.add num data) := by
  unfold View.add
  split_ifs with hmiss
  · obtain ⟨hmax, hsize, hleaked⟩ := hv
    refine ⟨hmax, hsize.imp_right fun h => ?_, by dsimp only; omega⟩
    dsimp only
    rw [h.1]
    exact ⟨rfl, h.2⟩
  · exact hv.insert hdata

/-- Packages go out. -/
theorem Steady.out (hv : Steady len max k v) {ps : List Receiver.Package} {l : ℕ}
    (hps : v.packages = [] → ps = []) (hl : l ≤ v.leaked + 1) :
    Steady len max (k + 1) { v with packages := ps, leaked := l } := by
  obtain ⟨hmax, hsize, hleaked⟩ := hv
  exact ⟨hmax, hsize.imp_right fun h => ⟨hps h.1, h.2⟩, by dsimp only; omega⟩

theorem Steady.turn (hv : Steady len max k t.view) (hst : t.turn len e = some t') :
    Steady len max (k + 1) t'.view := by
  cases e with
  | add num data =>
    obtain ⟨h, rfl⟩ := Playing.add_eq hst
    exact hv.add h.1
  | take =>
    obtain ⟨p, ps, hp, -, rfl⟩ := Playing.take_eq hst
    split_ifs
    · exact hv.out (fun _ => rfl) le_rfl
    · refine hv.out (fun h => ?_) (Nat.le_succ _)
      rw [h] at hp
      cases hp
  | write =>
    obtain ⟨p, -, rfl⟩ := Option.map_eq_some_iff.1 hst
    exact hv.out id (Nat.le_succ _)
  | reset =>
    cases hst
    exact hv.out (fun _ => rfl) (Nat.le_succ _)

/-! ### One turn -/

/-- The node in hand is a spare one, with its length. -/
theorem Plays.hand (hs : Plays len s t) {p : Receiver.Package} (hp : t.package = some p) :
    ∃ x q es, s.package = some (x, len) ∧ s.memory.view x = p ∧
      Shows len s.memory ⟨q, es, [x]⟩ t.view := by
  obtain ⟨q, es, hshows⟩ := hs.shows
  have hpackage := hs.package
  rw [hp, Option.map_some, Option.map_eq_some_iff] at hpackage
  obtain ⟨⟨x, l⟩, hx, hxl⟩ := hpackage
  obtain ⟨hview, rfl⟩ := Prod.mk.inj hxl
  rw [hx] at hshows
  exact ⟨x, q, es, hx, hview, hshows⟩

theorem Plays.noHand (hs : Plays len s t) (hp : t.package = none) : s.package = none := by
  have hpackage := hs.package
  rwa [hp, Option.map_none, Option.map_eq_none_iff] at hpackage

/-- What a turn of the receiving thread needs: the node in hand stays as it is. -/
theorem Plays.keep (hs : Plays len s t) {m : DataHeap} {q es : List UInt64}
    (hshows : Shows len m ⟨q, es, (s.package.map Prod.fst).toList⟩ v)
    (hview : ∀ p ∈ (s.package.map Prod.fst).toList, m.view p = s.memory.view p) :
    Plays len { s with memory := m } { t with view := v } := by
  refine ⟨⟨q, es, hshows⟩, ?_, hs.data, hs.written⟩
  rw [← hs.package]
  refine Option.map_congr fun p hp => ?_
  rw [hview p.1]
  rw [hp]
  exact List.mem_singleton_self p.1

theorem Plays.length_hand (s : Process) : (s.package.map Prod.fst).toList.length ≤ 1 := by
  cases s.package <;> simp

/-- **`add_to_buffor`.** -/
theorem Plays.add (halloc : Allocates alloc) (hs : Plays len s t) (hlen : len ≠ 0)
    (hv : Steady len max k t.view) (hmax : (max / len).toNat < 2 ^ 31)
    (hdata : data.length = len.toNat) (hacc : t.view.Accepts len num) (hk : k < 2 ^ 62)
    (hn : 2 ^ 64 ≤ n) : ∃ s', s.turn alloc n (.add num data) = some s' ∧
      Plays len s' { t with view := t.view.add num data } := by
  obtain ⟨q, es, hshows⟩ := hs.shows
  have hpos : 0 < len.toNat := Nat.pos_of_ne_zero fun h0 => hlen (UInt64.toNat_inj.1 h0)
  have hsize : t.view.size < 2 ^ 31 := by
    rcases hv.size with h | h <;> omega
  have hhand := Plays.length_hand s
  have hleaked := hv.leaked
  obtain ⟨m', q', es', hadd, hshows', hview⟩ := hshows.add halloc hpos hsize
    (by rw [hv.maxData]; exact hmax) hdata hacc (by omega) hn
  refine ⟨{ s with memory := m' }, ?_, hs.keep hshows' hview⟩
  simp only [Process.turn, hadd, Option.bind_eq_bind, Option.bind_some]
  rfl

/-- **`reset_buffor`.** -/
theorem Plays.reset (hs : Plays len s t) (hn : t.view.packages.length < n) :
    ∃ s', s.turn alloc n .reset = some s' ∧
      Plays len s' { t with view := { t.view with packages := [] } } := by
  obtain ⟨q, es, hshows⟩ := hs.shows
  obtain ⟨h', hreset, hshows', hview⟩ := hshows.reset hn
  refine ⟨{ s with memory := { s.memory with heap := h' } }, ?_,
    hs.keep hshows' fun p _ => congrFun hview p⟩
  simp only [Process.turn, hreset, Option.bind_eq_bind, Option.bind_some]
  rfl

/-- **The package in hand is written and freed.** -/
theorem Plays.write (hs : Plays len s t) {p : Receiver.Package} (hp : t.package = some p) :
    ∃ s', s.turn alloc n .write = some s' ∧
      Plays len s' ⟨t.view, none, t.written ++ p.data⟩ := by
  obtain ⟨x, q, es, hx, hview, hshows⟩ := hs.hand hp
  have hall : x ∈ q ++ [x] := List.mem_append_right _ (List.mem_singleton_self x)
  have h0 : (s.memory.heap.package x).data ≠ 0 := by
    intro h0
    refine hs.data p hp ?_
    rw [← hview]
    exact if_pos h0
  have hdata : s.memory.bytes (s.memory.heap.package x).data = p.data := by
    rw [← hview]
    exact (if_neg h0).symm
  have hlen : (s.memory.bytes (s.memory.heap.package x).data).length = len.toNat :=
    hshows.laid.filled x hall h0
  obtain ⟨h', hremove, hshows', -⟩ := hshows.remove
  refine ⟨⟨{ s.memory with heap := h' }, none, s.written ++ p.data⟩, ?_,
    ⟨q, es, hshows'⟩, rfl, by simp, by rw [hs.written]⟩
  have hload := Heap.load_eq (hshows.laid.owns.mem_live hall)
  simp only [Process.turn, printWrite, hx, hload, hremove, hlen, lt_irrefl, if_false,
    Option.bind_eq_bind, Option.bind_some]
  rw [← hdata, ← hlen, List.take_length]
  rfl

/-- The length that the printing thread computes is that of the packets. -/
theorem Plays.len_eq (hs : Plays len s t) (hv : Steady len max k t.view)
    (hne : t.view.packages ≠ []) (hexact : max / (max / len) = len) (hlen : len ≠ 0) :
    s.memory.heap.buffor.size ≠ 0 ∧
      s.memory.heap.buffor.maxData / s.memory.heap.buffor.size = len := by
  obtain ⟨q, es, hshows⟩ := hs.shows
  have hsize : s.memory.heap.buffor.size = max / len := by
    rw [← UInt64.toNat_inj, hshows.size]
    exact hv.size.resolve_right fun h => hne h.1
  have hmax : s.memory.heap.buffor.maxData = max := hshows.maxData.trans hv.maxData
  rw [hmax, hsize]
  refine ⟨fun h0 => hlen ?_, hexact⟩
  rw [← hexact, h0]
  exact UInt64.div_zero

/-- **`pop_from_buffor`** and what follows it. -/
theorem Plays.take (hs : Plays len s t) (hv : Steady len max k t.view)
    (hexact : max / (max / len) = len) (hlen : len ≠ 0) {p : Receiver.Package}
    {ps : List Receiver.Package} (hp : t.view.packages = p :: ps) (hpackage : t.package = none)
    (hn : t.view.packages.length < n) :
    ∃ s', s.turn alloc n .take = some s' ∧ Plays len s' (if p.data = [] then
        { t with view := { t.view with packages := [], leaked := t.view.leaked + 1 } }
      else { t with view := { t.view with packages := ps }, package := some p }) := by
  have hpos : 0 < len.toNat := Nat.pos_of_ne_zero fun h0 => hlen (UInt64.toNat_inj.1 h0)
  obtain ⟨hsize, hlen'⟩ := hs.len_eq hv (by rw [hp]; exact List.cons_ne_nil p ps) hexact hlen
  have hnone := hs.noHand hpackage
  obtain ⟨q, es, hshows⟩ := hs.shows
  rw [hnone] at hshows
  obtain ⟨x, l, rfl⟩ : ∃ x l, q = x :: l := by
    refine List.exists_cons_of_ne_nil fun hq => ?_
    have hz := hshows.packages
    rw [hq, hp] at hz
    cases hz
  have hview : s.memory.view x = p := by
    have hz := hshows.packages
    rw [hp] at hz
    exact (List.cons_eq_cons.1 hz).1
  have hfill : 0 < s.memory.heap.buffor.fill := by
    rw [UInt64.lt_iff_toNat_lt, hshows.fill_eq, hp]
    exact Nat.succ_pos _
  obtain ⟨h₁, es', hpop, hs₁, hview₁⟩ := hshows.pop hpos (hshows.elems_le.trans_lt hn)
  rw [hp] at hs₁
  have hbuffor : h₁.buffor.size = s.memory.heap.buffor.size ∧
      h₁.buffor.maxData = s.memory.heap.buffor.maxData :=
    ⟨UInt64.toNat_inj.1 (hs₁.size.trans hshows.size.symm), hs₁.maxData.trans hshows.maxData.symm⟩
  have hall : x ∈ l ++ [x] := List.mem_append_right l (List.mem_singleton_self x)
  have hload := Heap.load_eq (hs₁.laid.owns.mem_live hall)
  have hview' : DataHeap.view ⟨h₁, s.memory.bytes⟩ x = p := by rw [hview₁, hview]
  have hzero : p.data = [] ↔ (h₁.package x).data = 0 := by
    rw [← hview']
    exact hs₁.laid.view_data hpos hall
  rw [← hbuffor.1] at hsize hlen'
  rw [← hbuffor.2] at hlen'
  simp only [Process.turn, printTake, hnone, hfill, hpop, hload, if_neg hsize, hlen', and_self,
    if_true, Option.bind_eq_bind, Option.bind_some]
  by_cases h0 : (h₁.package x).data = 0
  · rw [if_pos h0, if_pos (hzero.2 h0)]
    obtain ⟨h₂, hreset, hs₂, hview₂⟩ := hs₁.reset (n := n) (by
      refine lt_of_le_of_lt ?_ hn
      rw [hp]
      exact Nat.le_succ _)
    -- the node that is lost is the only block of the package
    have h0' : (h₂.package x).data = 0 := by
      refine (hs₂.laid.view_data hpos (List.mem_singleton_self x)).1 ?_
      rw [hview₂, hview']
      exact hzero.2 h0
    have hblocks : (h₂.blocks x).length = 1 := by
      unfold Heap.blocks
      rw [if_neg (not_not.2 h0')]
      rfl
    have hl := hs₂.laid.leak
    dsimp only at hl
    rw [hblocks] at hl
    simp only [hreset, Option.bind_some]
    exact ⟨_, rfl, ⟨[], [], hl, hs₂.holes, hs₂.packages, hs₂.size, hs₂.maxData, hs₂.bound,
      hs₂.ascending⟩, by rw [hpackage]; rfl, hs.data, hs.written⟩
  · rw [if_neg h0, if_neg (mt hzero.1 h0)]
    refine ⟨_, rfl, ⟨l, es', hs₁⟩, ?_, ?_, hs.written⟩
    · simp [hview']
    · rintro _ ⟨⟩
      exact mt hzero.1 h0

/-- **Every turn is played.** -/
theorem Plays.turn (halloc : Allocates alloc) (hs : Plays len s t) (hlen : len ≠ 0)
    (hexact : max / (max / len) = len) (hmax : (max / len).toNat < 2 ^ 31)
    (hv : Steady len max k t.view) (hk : k < 2 ^ 62) (hn : 2 ^ 64 ≤ n)
    (hst : t.turn len e = some t') : ∃ s', s.turn alloc n e = some s' ∧ Plays len s' t' := by
  obtain ⟨q, es, hshows⟩ := hs.shows
  have hbound := hshows.bound
  have hsize : t.view.packages.length < n := by
    rcases hv.size with h | h <;> omega
  cases e with
  | add num data =>
    obtain ⟨⟨hdata, hacc⟩, rfl⟩ := Playing.add_eq hst
    exact hs.add halloc hlen hv hmax hdata hacc hk hn
  | take =>
    obtain ⟨p, ps, hp, hpackage, rfl⟩ := Playing.take_eq hst
    exact hs.take hv hexact hlen hp hpackage hsize
  | write =>
    obtain ⟨p, hp, rfl⟩ := Option.map_eq_some_iff.1 hst
    exact hs.write hp
  | reset =>
    cases hst
    exact hs.reset hsize

/-- **The memory in use**: two blocks for every package and the one in hand, and those that are
lost. -/
theorem Plays.used (hs : Plays len s t) (hlen : len ≠ 0) : s.memory.heap.live.card =
    2 * (t.view.packages.length + t.package.toList.length) + t.view.leaked := by
  cases hp : t.package with
  | none =>
    have hnone := hs.noHand hp
    obtain ⟨q, es, hshows⟩ := hs.shows
    rw [hnone] at hshows
    rw [hshows.used]
    rfl
  | some p =>
    have hpos : 0 < len.toNat := Nat.pos_of_ne_zero fun h0 => hlen (UInt64.toNat_inj.1 h0)
    obtain ⟨x, q, es, -, hview, hshows⟩ := hs.hand hp
    have hdata := hshows.laid.view_data hpos (List.mem_append_right _ (List.mem_singleton_self x))
    have hblocks : (s.memory.heap.blocks x).length = 2 := by
      unfold Heap.blocks
      rw [if_pos (mt hdata.2 (by rw [hview]; exact hs.data p hp))]
      rfl
    rw [hshows.used, List.flatMap_singleton, hblocks, Option.toList_some, List.length_singleton]
    omega

/-! ### Runs -/

/-- A buffer that nothing is in, in memory that nothing is in. -/
def Process.start (h : Heap) (max : UInt64) (bytes : UInt64 → List UInt8) : Process :=
  ⟨⟨createBuffor h max, bytes⟩, none, []⟩

def Playing.start (max : UInt64) : Playing := ⟨⟨[], 0, max, 0⟩, none, []⟩

theorem Plays.start (h : Heap) (hlive : h.live = ∅) (bytes : UInt64 → List UInt8) :
    Plays len (Process.start h max bytes) (Playing.start max) := by
  refine ⟨⟨[], [], ?_⟩, rfl, by simp [Playing.start], rfl⟩
  have hh := createBuffor_holds h max
  refine ⟨⟨⟨hh.packages, hh.fill, rfl, hh.ring, hh.owns.congr rfl rfl⟩, hh.owns, ?_, by simp,
    fun _ hp => absurd hp List.not_mem_nil, ?_⟩, rfl, rfl, rfl, rfl, by simp [Playing.start],
    List.isChain_nil⟩
  · exact ⟨rfl, LinkedRing.isRing_nil, List.nodup_nil, by simp, by simp, List.Pairwise.nil⟩
  · show h.live.card = 0
    rw [hlive, Finset.card_empty]

/-- Every run is played. -/
theorem Plays.run (halloc : Allocates alloc) (hn : 2 ^ 64 ≤ n) (hlen : len ≠ 0)
    (hexact : max / (max / len) = len) (hmax : (max / len).toNat < 2 ^ 31) {h : Heap}
    (hlive : h.live = ∅) (bytes : UInt64 → List UInt8) (hts : ts.length ≤ 2 ^ 62)
    (hrun : Run (Fires (Playing.turn len)) (Playing.start max) ts t) :
    ∃ s, Run (Fires (Process.turn alloc n)) (Process.start h max bytes) ts s ∧ Plays len s t ∧
      Steady len max ts.length t.view := by
  induction hrun with
  | nil => exact ⟨_, Run.nil, Plays.start h hlive bytes, rfl, Or.inr ⟨rfl, rfl⟩, le_rfl⟩
  | snoc _ hst ih =>
    rw [List.length_append, List.length_singleton] at hts
    obtain ⟨s, hrun, hs, hv⟩ := ih (by omega)
    obtain ⟨s', hst', hs'⟩ := hs.turn halloc hlen hexact hmax hv (by omega) hn hst
    refine ⟨s', hrun.snoc hst', hs', ?_⟩
    rw [List.length_append, List.length_singleton]
    exact hv.turn hst

/-- **The buffer of pointers is the list of packages, in every run** of the two threads whose packets
have one length and come with numbers that the buffer has a place for. `max / (max / len) = len`
says that the length the printing thread computes is that of the packets, and `max / len < 2 ^ 31`
that `test` can count them. The heap is empty at first, and lasts for `2 ^ 62` turns: `malloc` finds a
free address, and its blocks have room for an element of the set, of which line 47 asks for 8 bytes. -/
theorem big_refines (halloc : Allocates alloc) (hn : 2 ^ 64 ≤ n) (hlen : len ≠ 0)
    (hexact : max / (max / len) = len) (hmax : (max / len).toNat < 2 ^ 31) {h : Heap}
    (hlive : h.live = ∅) (bytes : UInt64 → List UInt8) (hts : ts.length ≤ 2 ^ 62)
    (hrun : Run (Fires (Playing.turn len)) (Playing.start max) ts t) :
    ∃ s, Run (Fires (Process.turn alloc n)) (Process.start h max bytes) ts s ∧ Plays len s t ∧
      s.memory.heap.live.card =
        2 * (t.view.packages.length + t.package.toList.length) + t.view.leaked := by
  obtain ⟨s, hrun, hs, -⟩ := Plays.run halloc hn hlen hexact hmax hlive bytes hts hrun
  exact ⟨s, hrun, hs, hs.used hlen⟩

/-- The first address that is free. A block has room for 24 bytes at least. -/
def firstFree : Malloc where
  address h := (((List.range (h.live.card + 2)).map UInt64.ofNat).find? fun p => p ≠ 0 ∧ p ∉ h.live).getD 0
  room n := Nat.max n 24

theorem firstFree_allocates : Allocates firstFree := by
  refine ⟨fun h hcard => ?_, by decide⟩
  unfold firstFree
  dsimp only
  cases hfind : ((List.range (h.live.card + 2)).map UInt64.ofNat).find? fun p => p ≠ 0 ∧ p ∉ h.live with
  | some p => simpa using List.find?_some hfind
  | none =>
    rw [List.find?_eq_none] at hfind
    -- all of them would be in use
    have hsub : ((List.range (h.live.card + 2)).map UInt64.ofNat).toFinset ⊆ insert 0 h.live := by
      intro p hp
      rw [List.mem_toFinset] at hp
      have hout := hfind p hp
      rw [Finset.mem_insert]
      simpa [or_iff_not_imp_left] using hout
    have hnodup : ((List.range (h.live.card + 2)).map UInt64.ofNat).Nodup := by
      refine List.nodup_range.map_on fun a ha b hb hab => ?_
      have hsmall : ∀ a ∈ List.range (h.live.card + 2), (UInt64.ofNat a).toNat = a := fun a ha => by
        rw [List.mem_range] at ha
        exact Nat.mod_eq_of_lt (by omega)
      rw [← hsmall a ha, ← hsmall b hb, hab]
    have hle := Finset.card_le_card hsub
    rw [List.toFinset_card_of_nodup hnodup, Finset.card_insert_of_notMem h.notNull, List.length_map,
      List.length_range] at hle
    omega

/-- Two packets, the one between them, and the beginning of the output. -/
def fourTurns : List Turn := [.add 0 [1, 2], .add 4 [5, 6], .take, .add 2 [3, 4], .write, .take]

theorem big_refines_four : ∃ s, Run (Fires (Process.turn firstFree (2 ^ 64)))
    (Process.start unused 8 fun _ => []) fourTurns s ∧
      Plays 2 s ⟨⟨[⟨[5, 6], 4⟩], 4, 8, 0⟩, some ⟨[3, 4], 2⟩, [1, 2]⟩ ∧ s.memory.heap.live.card = 4 :=
  big_refines firstFree_allocates le_rfl (by decide) (by decide) (by decide) rfl _ (by decide)
    (exec_run rfl)

end SikMimuw.Big
