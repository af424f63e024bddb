import SikMimuw.Lib.Run
import SikMimuw.Proof.Loop
import SikMimuw.Proof.Shape

/-!
# A packet that comes twice

`set` has the numbers of missing packages only, and the loop compares a packet with the front and
with the place behind the back. So a packet that is in the list already is pushed towards the back
like any other, and the packages before it are lost, unless the list is full.

* `Held`: no key of `set` is the number of a package with data.
* `Sound`: the invariant, with the shape of the buffer. `Sound.step`: an operation keeps it.
* `ignores_iff`: when a packet that is there leaves the buffer alone. `duplicate_ok`: in every state
  between calls.
-/

namespace SikMimuw.Receiver

open Lts

variable {W : Wild} {len num maxData : UInt64} {data : List UInt8} {b b' : Buffer} {c : Call}
  {back p : Package} {n : ℕ}

/-- **The call leaves the buffer alone**, and returns. -/
def Ignores (W : Wild) (b : Buffer) (num : UInt64) (data : List UInt8) : Prop :=
  ∃ n, (addToBuffor W b num data n).done = true ∧
    (addToBuffor W b num data n).buf.packages.values = b.packages.values ∧
    (addToBuffor W b num data n).buf.set.entries = b.set.entries ∧
    (addToBuffor W b num data n).buf.size = b.size

/-- A package with data has no key. -/
def Held (b : Buffer) : Prop :=
  ∀ p ∈ b.packages.values, p.data ≠ [] → ∀ it, (p.num, it) ∉ b.set.entries

/-- **The invariant.** -/
structure Sound (len maxData : UInt64) (b : Buffer) : Prop where
  shaped : Shaped len maxData b
  keyed : Keyed b
  held : Held b

theorem init_sound (len maxData : UInt64) : Sound len maxData (Buffer.init maxData) :=
  ⟨init_shaped len maxData, init_keyed maxData, fun _ h => by cases h⟩

/-- Packages and keys go. -/
theorem Held.mono (h : Held b) (hp : ∀ p ∈ b'.packages.values, p ∈ b.packages.values)
    (hk : ∀ e ∈ b'.set.entries, e ∈ b.set.entries) : Held b' :=
  fun p hm hd it hit => h p (hp p hm) hd it (hk _ hit)

theorem Held.append (h : Held b) (hnum : ∀ it, (num, it) ∉ b.set.entries) (data : List UInt8) :
    Held (b.append num data) := by
  intro p hp hd it hit
  change p ∈ (b.packages.pushBack _).values at hp
  rw [NodeList.values_pushBack, List.mem_append, List.mem_singleton] at hp
  rcases hp with hp | rfl
  · exact h p hp hd it hit
  · exact hnum it hit

theorem Held.appendDummy (h : Held b) (hnum : num ∉ b.nums) : Held (b.appendDummy num) := by
  intro p hp hd it hit
  rw [Buffer.appendDummy_values, List.mem_append, List.mem_singleton] at hp
  rcases hp with hp | rfl
  · rcases OrdMap.mem_insert.1 hit with ⟨hk, -⟩ | ⟨-, hit⟩
    · exact hnum (List.mem_map.2 ⟨p, hp, hk⟩)
    · exact h p hp hd it hit
  · exact hd rfl

/-- The data of a missing package arrives, and its key goes. -/
theorem Held.fill (h : Held b) (hk : Keyed b) {it : ℕ} (hit : (num, it) ∈ b.set.entries)
    (data : List UInt8) : Held (b.fill it num data) := by
  intro p hp hd it' hit'
  obtain ⟨hne, hit'⟩ := OrdMap.mem_erase.1 hit'
  rcases NodeList.mem_modify hp with ⟨q, hq, rfl⟩ | hp
  · have hnum : q.num = num := hk.num _ _ _ hit hq
    exact hne hnum
  · exact h p hp hd it' hit'

/-- While there is room, the numbers are distinct, and the next one is new. -/
theorem Shaped.nodup_next (h : Shaped len maxData b) (hlen : 0 < len.toNat)
    (hb : b.packages.values.getLast? = some back) (hroom : b.packages.size < b.size.toNat) :
    (b.nums ++ [back.num + len]).Nodup := by
  have hne : b.packages.values ≠ [] := by
    intro h0
    rw [h0] at hb
    cases hb
  have hle : b.size.toNat * len.toNat ≤ maxData.toNat := by
    rw [h.size_eq hne, UInt64.toNat_div]
    exact Nat.div_mul_le_self _ _
  have hmul : b.packages.size * len.toNat ≤ b.size.toNat * len.toNat :=
    Nat.mul_le_mul_right _ (le_of_lt hroom)
  have hmax := maxData.toNat_lt
  refine h.prog.nodup_snoc hlen (nums_getLast hb) ?_
  rw [length_nums]
  omega

theorem Shaped.next_notMem (h : Shaped len maxData b) (hlen : 0 < len.toNat)
    (hb : b.packages.values.getLast? = some back) (hroom : b.packages.size < b.size.toNat) :
    back.num + len ∉ b.nums := fun hm =>
  (List.nodup_append.1 (h.nodup_next hlen hb hroom)).2.2 _ hm _ (List.mem_singleton_self _) rfl

/-- The call, as long as it is in its loop, has not pushed its own number. -/
structure SoundCall (len maxData num : UInt64) (c : Call) : Prop where
  sound : Sound len maxData c.buf
  free : c.done = false → ∀ it, (num, it) ∉ c.buf.set.entries

theorem Sound.enter (h : Sound len maxData b) (hl : data.length = len.toNat) :
    SoundCall len maxData num (b.enter num data) := by
  have hs : Shaped len maxData (b.enter num data).buf := h.shaped.enter hl
  have hk : Keyed (b.enter num data).buf := h.keyed.enter
  have hc := enter_case b num data
  generalize b.enter num data = c at hc hs hk
  cases hc with
  | fill hit => exact ⟨⟨hs, hk, h.held.fill h.keyed hit data⟩, fun hd => by cases hd⟩
  | first hkey =>
    have hheld : Held { b with size := b.maxData / UInt64.ofNat data.length } := h.held
    exact ⟨⟨hs, hk, hheld.append (OrdMap.find?_eq_none.1 hkey) data⟩, fun hd => by cases hd⟩
  | loop hkey => exact ⟨h, fun _ => OrdMap.find?_eq_none.1 hkey⟩

/-- One more dummy, which is not the packet. -/
theorem SoundCall.dummy (h : SoundCall len maxData num c) (hd : c.done = false)
    (hlen : 0 < len.toNat) (hb : c.buf.packages.values.getLast? = some back)
    (hroom : c.buf.packages.size < c.buf.size.toNat) (hgap : back.num + len ≠ num) :
    Held (c.buf.appendDummy (back.num + len)) ∧
      ∀ it, (num, it) ∉ (c.buf.appendDummy (back.num + len)).set.entries := by
  refine ⟨h.sound.held.appendDummy (h.sound.shaped.next_notMem hlen hb hroom), fun it hit => ?_⟩
  rcases OrdMap.mem_insert.1 hit with ⟨hnum, -⟩ | ⟨-, hit⟩
  · exact hgap hnum.symm
  · exact h.free hd it hit

/-- **A pass of the loop.** -/
theorem SoundCall.pass (h : SoundCall len maxData num c) (hlen : 0 < len.toNat)
    (hl : data.length = len.toNat) : SoundCall len maxData num (c.pass W num data) := by
  by_cases hd : c.done = true
  · rw [Call.pass_done W num data hd]
    exact h
  rw [Bool.not_eq_true] at hd
  have hs : Shaped len maxData (c.pass W num data).buf := h.sound.shaped.pass hl
  have hk : Keyed (c.pass W num data).buf := h.sound.keyed.pass hd
  have hc := pass_case W num data hd
  have hnlen := ofNat_length hl
  generalize Call.pass W num data c = c' at hc hs hk
  cases hc with
  | stop => exact ⟨h.sound, fun hd => by cases hd⟩
  | append => exact ⟨⟨hs, hk, h.sound.held.append (h.free hd) data⟩, fun hd => by cases hd⟩
  | dummy hf hb hroom hge hgap =>
    rw [hnlen] at hgap hs hk ⊢
    obtain ⟨hheld, hfree⟩ := h.dummy hd hlen hb (by omega) hgap
    exact ⟨⟨hs, hk, hheld⟩, fun _ => hfree⟩
  | evict hf hb hfull hge hgap he =>
    rw [hnlen] at hgap he
    obtain ⟨hheld, hfree⟩ := h.dummy hd hlen hb (by omega) hgap
    subst he
    refine ⟨⟨hs, hk, hheld.mono ?_ mem_of_mem_eraseBelow⟩, fun _ it hit =>
      hfree it (mem_of_mem_eraseBelow _ hit)⟩
    intro p hp
    change p ∈ (NodeList.popFront _).values at hp
    rw [NodeList.values_popFront] at hp
    exact List.mem_of_mem_tail hp

theorem Sound.addToBuffor (h : Sound len maxData b) (hlen : 0 < len.toNat)
    (hl : data.length = len.toNat) (n : ℕ) :
    SoundCall len maxData num (addToBuffor W b num data n) := by
  induction n with
  | zero => exact h.enter hl
  | succ n ih =>
    rw [addToBuffor_succ]
    exact ih.pass hlen hl

/-- **One operation** keeps the invariant. -/
theorem Sound.step {e : ShapeEvent} (h : Sound len maxData b) (hlen : 0 < len.toNat)
    (hst : ShapeStep len b e b') : Sound len maxData b' := by
  cases hst with
  | add W num data n hl => exact (h.addToBuffor hlen hl n).sound
  | pop hp =>
    obtain ⟨-, rfl⟩ := pop_eq_some.1 hp
    refine ⟨h.shaped.popFront, h.keyed.popFront fun _ he => he, h.held.mono ?_ fun _ he => he⟩
    intro p hm
    rw [NodeList.values_popFront] at hm
    exact List.mem_of_mem_tail hm
  | reset => exact ⟨h.shaped.reset, reset_keyed b, fun _ hm => by cases hm⟩

/-! ### The call for a packet that is there -/

/-- A call whose list is full, or whose packet is older than the front, returns at once. -/
theorem ignores_of (hkey : b.set.find? num = none) (hne : b.packages.values ≠ [])
    (h : b.size.toNat ≤ b.packages.size ∨ ∃ front ∈ b.packages.values.head?, num < front.num) :
    Ignores W b num data := by
  have hone : addToBuffor W b num data 1 = ⟨b, [], true⟩ := addToBuffor_at_once hkey hne h
  exact ⟨1, by rw [hone], by rw [hone], by rw [hone], by rw [hone]⟩

/-- The list that the loop has pushed dummies into is not the one that was there. -/
theorem InLoop.values_ne {j : ℕ} (h : InLoop len b back (j + 1) c) (he : Enters b num back)
    (hnd : b.nums.Nodup) (hp : p ∈ b.packages.values) (hd : p.data ≠ []) :
    c.buf.packages.values ≠ b.packages.values := by
  intro heq
  have hroom := he.room
  have hsize := h.length
  rw [← NodeList.length_values, heq, NodeList.length_values] at hsize
  obtain ⟨i, hi, hpi⟩ := List.getElem_of_mem hp
  have hpi' : b.packages.values[i]? = some p := by rw [List.getElem?_eq_getElem hi, hpi]
  -- the package has moved `j + 1` places to the front
  have hmoved : (b.grown back.num len (j + 1))[j + 1 + i]? = some p := by
    have hw := h.values
    rw [heq] at hw
    rw [hw, Window.getElem?_rtake, length_grown] at hpi'
    have hidx : b.packages.size + (j + 1) - (b.size.toNat - 1) + i = j + 1 + i := by omega
    rwa [hidx] at hpi'
  unfold Buffer.grown at hmoved
  by_cases hlt : j + 1 + i < b.packages.values.length
  · rw [List.getElem?_append_left hlt] at hmoved
    have hnum : ∀ k : ℕ, b.packages.values[k]? = some p → b.nums[k]? = some p.num := by
      intro k hk
      rw [Buffer.nums, List.getElem?_map, hk]
      rfl
    have hi' : i < b.nums.length := by rwa [Buffer.nums, List.length_map]
    have hsame := (List.getElem?_inj hi' hnd).1 ((hnum _ hpi').trans (hnum _ hmoved).symm)
    omega
  -- behind the old packages there are only dummies
  · rw [List.getElem?_append_right (not_lt.1 hlt)] at hmoved
    obtain ⟨i', -, rfl⟩ := List.mem_map.1 (List.mem_of_getElem? hmoved)
    exact hd rfl

/-- **A packet that is there**: the call leaves the buffer alone exactly if the list is full or the
packet is older than the front. -/
theorem ignores_iff (h : Sound len maxData b) (hlen : 0 < len.toNat) (hp : p ∈ b.packages.values)
    (hd : p.data ≠ []) : Ignores W b p.num p.data ↔
      b.size.toNat ≤ b.packages.size ∨ ∃ front ∈ b.packages.values.head?, p.num < front.num := by
  have hkey := OrdMap.find?_eq_none.2 (h.held p hp hd)
  have hne := List.ne_nil_of_mem hp
  have hl := (h.shaped.whole p hp).resolve_left hd
  refine ⟨?_, ignores_of hkey hne⟩
  rintro ⟨n, hdone, hvalues, -, -⟩
  by_contra hno
  rw [not_or] at hno
  obtain ⟨hroom, hfront⟩ := hno
  have he : Enters b p.num (b.packages.values.getLast hne) :=
    ⟨hkey, List.getLast?_eq_getLast_of_ne_nil hne, not_le.1 hroom⟩
  have hnd := h.shaped.nodup_next hlen he.last he.room
  rcases loop_cases he hl W n with hin | ⟨j, -, hin, hdj, heq⟩
  · rw [hin.running] at hdone
    cases hdone
  rw [heq] at hvalues
  have hc := hin.succ he hl
  generalize addToBuffor W b p.num p.data (j + 1) = c' at hc hdj hvalues
  cases j with
  | zero =>
    cases hc with
    | older hf hlt =>
      rw [addToBuffor_cons hkey hne] at hf
      exact hfront ⟨_, hf, hlt⟩
    | next _ _ hnext =>
      rw [show (0 : ℕ) + 1 = 1 from rfl, show UInt64.ofNat 1 = 1 from rfl, UInt64.one_mul] at hnext
      refine h.shaped.next_notMem hlen he.last he.room ?_
      rw [hnext]
      exact List.mem_map.2 ⟨p, hp, rfl⟩
    | goesOn _ _ _ hc =>
      rw [hc.running] at hdj
      cases hdj
  | succ j =>
    cases hc with
    | older =>
      exact hin.values_ne he (List.nodup_append.1 hnd).1 hp hd hvalues
    | next =>
      -- the list has one more package
      have hsize := congrArg List.length hvalues
      change (NodeList.pushBack _ _).values.length = _ at hsize
      rw [NodeList.values_pushBack, List.length_append, NodeList.length_values, hin.length,
        NodeList.length_values, List.length_singleton] at hsize
      have hroom' := he.room
      omega
    | goesOn _ _ _ hc =>
      rw [hc.running] at hdj
      cases hdj

/-- **Duplicates.** In every state between calls with one payload length, a packet that is there
leaves the buffer alone exactly if the list is full or the packet is older than the front. -/
theorem duplicate_ok {len maxData : UInt64} {es : List ShapeEvent} {b : Buffer}
    (h : Run (ShapeStep len) (Buffer.init maxData) es b) {p : Package} (hp : p ∈ b.packages.values)
    (hd : p.data ≠ []) (W : Wild) : Ignores W b p.num p.data ↔
      b.size.toNat ≤ b.packages.size ∨ ∃ front ∈ b.packages.values.head?, p.num < front.num := by
  have hs : Shaped len maxData b :=
    h.inv (init_shaped len maxData) fun _ _ _ hI hst => hI.step hst
  have hl := (hs.whole p hp).resolve_left hd
  have hlen : 0 < len.toNat := by
    rw [← hl]
    exact List.length_pos_iff.2 hd
  have hsound : Sound len maxData b :=
    h.inv (init_sound len maxData) fun _ _ _ hI hst => hI.step hlen hst
  exact ignores_iff hsound hlen hp hd

/-- Room for two packages of one byte, both there: packet 0 comes again. -/
theorem duplicate_ok_full : ∃ b, b.packages.values = [⟨[7], 0⟩, ⟨[8], 1⟩] ∧
    Ignores ⟨fun _ _ => 0, fun _ _ => 0⟩ b 0 [7] := by
  have h0 : Run (ShapeStep 1) (Buffer.init 2) [] (Buffer.init 2) := Run.nil
  have h1 := h0.snoc (ShapeStep.add ⟨fun _ _ => 0, fun _ _ => 0⟩ 0 [7] 0 rfl rfl)
  have h2 := h1.snoc (ShapeStep.add ⟨fun _ _ => 0, fun _ _ => 0⟩ 1 [8] 1 rfl rfl)
  exact ⟨_, rfl, (duplicate_ok h2 (p := ⟨[7], 0⟩) (List.mem_cons_self ..) (by decide) _).2
    (Or.inl (by decide))⟩

/-- Room for three packages of one byte: packet 0 comes again, and is lost. -/
theorem duplicate_lost : ¬ ∀ (len maxData : UInt64) (es : List ShapeEvent) (b : Buffer),
    Run (ShapeStep len) (Buffer.init maxData) es b →
      ∀ p ∈ b.packages.values, p.data ≠ [] → ∀ W, Ignores W b p.num p.data := by
  intro h
  have h0 : Run (ShapeStep 1) (Buffer.init 3) [] (Buffer.init 3) := Run.nil
  have h1 := h0.snoc (ShapeStep.add ⟨fun _ _ => 0, fun _ _ => 0⟩ 0 [7] 0 rfl rfl)
  have hi := h 1 3 _ _ h1 ⟨[7], 0⟩ (List.mem_cons_self ..) (by decide) ⟨fun _ _ => 0, fun _ _ => 0⟩
  have hs : Sound 1 3 _ := h1.inv (init_sound 1 3) fun _ _ _ hI hst => hI.step (by decide) hst
  rw [ignores_iff hs (p := ⟨[7], 0⟩) (by decide) (List.mem_cons_self ..) (by decide)] at hi
  rcases hi with hfull | ⟨front, hf, hlt⟩
  · exact absurd hfull (by decide)
  · obtain rfl := Option.some.inj hf
    exact absurd hlt (by decide)

end SikMimuw.Receiver
