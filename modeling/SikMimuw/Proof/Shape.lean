import SikMimuw.Proof.Buffor
import Mathlib.Algebra.Order.BigOperators.Group.List

/-!
# The shape of the buffer

Whatever numbers come, and whatever key line 38 reads outside the list, `packages` is a
progression of step `len`, no longer than `max(1, max_data / len)`, of packages that hold
`len` bytes or none. `set` plays no part: the calls need not fit (`Proof/Eviction`), and a
fill through a stale iterator changes no package.

* `Shaped.pass`: a pass of the loop keeps the shape, eviction included.
* `shape_kept`: the shape in every state between calls.
-/

namespace SikMimuw.Receiver

open Lts

variable {W : Wild} {len num maxData : UInt64} {data : List UInt8} {b b' : Buffer} {c : Call}

/-- Between two calls. `W` may be another one in each call. -/
inductive ShapeEvent
  | add (W : Wild) (num : UInt64) (data : List UInt8)
  | pop
  | reset

/-- A call of `add_to_buffor` with a payload of `len` bytes that returns, a `pop`, or a `reset`. -/
inductive ShapeStep (len : UInt64) : Buffer → ShapeEvent → Buffer → Prop
  | add {b : Buffer} (W : Wild) (num : UInt64) (data : List UInt8) (n : ℕ)
      (hl : data.length = len.toNat) (hd : (addToBuffor W b num data n).done = true) :
      ShapeStep len b (.add W num data) (addToBuffor W b num data n).buf
  | pop {b b' : Buffer} {p : Package} (hp : b.pop = some (p, b')) : ShapeStep len b .pop b'
  | reset {b : Buffer} : ShapeStep len b .reset b.reset

/-- A package that is missing or whole. -/
def Package.Whole (len : UInt64) (p : Package) : Prop := p.data = [] ∨ p.data.length = len.toNat

/-- The payload bytes in the buffer. -/
def Buffer.bytes (b : Buffer) : ℕ := (b.packages.values.map fun p => p.data.length).sum

/-- **The shape of the buffer** of a receiver with `maxData` bytes. -/
structure ShapeOk (len maxData : UInt64) (b : Buffer) : Prop where
  prog : Progression len b.nums
  room : b.packages.size ≤ max 1 (maxData / len).toNat
  bytes : len ≤ maxData → b.bytes ≤ maxData.toNat
  whole : ∀ p ∈ b.packages.values, p.Whole len

/-- The invariant behind it: `size` is stale in an empty buffer only. -/
structure Shaped (len maxData : UInt64) (b : Buffer) : Prop where
  prog : Progression len b.nums
  maxData_eq : b.maxData = maxData
  size_eq : b.packages.values ≠ [] → b.size = maxData / len
  bound : b.packages.size ≤ max 1 b.size.toNat
  whole : ∀ p ∈ b.packages.values, p.Whole len

theorem init_shaped (len maxData : UInt64) : Shaped len maxData (Buffer.init maxData) :=
  ⟨Progression.nil, rfl, fun h => absurd rfl h, Nat.zero_le _, fun _ h => by cases h⟩

theorem Shaped.reset (h : Shaped len maxData b) : Shaped len maxData b.reset :=
  ⟨Progression.nil, h.maxData_eq, fun h => absurd rfl h, Nat.zero_le _, fun _ h => by cases h⟩

/-- The front goes. -/
theorem Shaped.popFront (h : Shaped len maxData b) {set : OrdMap UInt64 ℕ} :
    Shaped len maxData { b with packages := b.packages.popFront, set := set } := by
  refine ⟨?_, h.maxData_eq, ?_, ?_, ?_⟩
  · have ht := h.prog.tail
    simpa [Buffer.nums, List.map_tail] using ht
  · intro hne
    refine h.size_eq fun h0 => hne ?_
    simp [h0]
  · have hb := h.bound
    have hle : b.packages.popFront.size ≤ b.packages.size := by simp [NodeList.size, NodeList.popFront]
    exact le_trans hle hb
  · intro p hp
    simp only [NodeList.values_popFront] at hp
    exact h.whole p (List.mem_of_mem_tail hp)

/-- One more package, with the next number. -/
theorem Shaped.pushBack (h : Shaped len maxData b) {back : Package} {set : OrdMap UInt64 ℕ}
    (hb : b.packages.values.getLast? = some back) (hroom : b.packages.size < b.size.toNat)
    {d : List UInt8} (hd : Package.Whole len ⟨d, back.num + len⟩) :
    Shaped len maxData { b with packages := b.packages.pushBack ⟨d, back.num + len⟩, set := set } := by
  refine ⟨?_, h.maxData_eq, ?_, ?_, ?_⟩
  · have hs := h.prog.snoc (nums_getLast hb)
    simpa [Buffer.nums] using hs
  · intro _
    exact h.size_eq fun h0 => by simp [h0] at hb
  · show (b.packages.pushBack _).size ≤ max 1 b.size.toNat
    rw [NodeList.size_pushBack]
    omega
  · intro p hp
    simp only [NodeList.values_pushBack, List.mem_append, List.mem_singleton] at hp
    rcases hp with hp | rfl
    · exact h.whole p hp
    · exact hd

/-- The data of a missing package arrives, or goes nowhere. -/
theorem Shaped.fill (h : Shaped len maxData b) (it : ℕ) (hl : data.length = len.toNat) :
    Shaped len maxData (b.fill it num data) := by
  refine ⟨by rw [nums_fill]; exact h.prog, h.maxData_eq, ?_, ?_, ?_⟩
  · intro hne
    refine h.size_eq fun h0 => hne ?_
    have hv : b.nums = [] := by simp [Buffer.nums, h0]
    have hf : (b.fill it num data).nums = [] := by rw [nums_fill, hv]
    simpa [Buffer.nums] using hf
  · have hn : (b.fill it num data).nums.length = b.nums.length := by rw [nums_fill]
    rw [length_nums, length_nums] at hn
    rw [hn]
    exact h.bound
  · intro p hp
    rcases NodeList.mem_modify hp with ⟨q, -, rfl⟩ | hp
    · exact Or.inr hl
    · exact h.whole p hp

/-- The first package of an empty buffer. -/
theorem Shaped.first (h : Shaped len maxData b) (hnil : b.packages.values = [])
    (hl : data.length = len.toNat) :
    Shaped len maxData ({ b with size := b.maxData / len }.append num data) := by
  have hv : ({ b with size := b.maxData / len }.append num data).packages.values = [⟨data, num⟩] := by
    show (b.packages.pushBack _).values = _
    rw [NodeList.values_pushBack, hnil]
    rfl
  refine ⟨?_, h.maxData_eq, fun _ => ?_, ?_, ?_⟩
  · rw [Buffer.nums, hv]
    exact Progression.singleton num
  · show b.maxData / len = _
    rw [h.maxData_eq]
  · rw [← NodeList.length_values, hv]
    exact le_max_left _ _
  · rw [hv]
    intro p hp
    obtain rfl := List.mem_singleton.1 hp
    exact Or.inr hl

theorem Shaped.enter (h : Shaped len maxData b) (hl : data.length = len.toNat) :
    Shaped len maxData (b.enter num data).buf := by
  have hc := enter_case b num data
  generalize b.enter num data = c at hc
  cases hc with
  | fill => exact h.fill _ hl
  | first hkey hnil =>
    rw [ofNat_length hl]
    exact h.first hnil hl
  | loop => exact h

/-- **A pass of the loop** keeps the shape. -/
theorem Shaped.pass (h : Shaped len maxData c.buf) (hl : data.length = len.toNat) :
    Shaped len maxData (c.pass W num data).buf := by
  by_cases hd : c.done = true
  · rw [Call.pass_done W num data hd]
    exact h
  · have hc := pass_case W num data (Bool.not_eq_true _ ▸ hd)
    generalize Call.pass W num data c = c' at hc
    have hlen := ofNat_length hl
    cases hc with
    | stop => exact h
    | append hf hb hroom hge hnext =>
      rw [hlen] at hnext
      subst hnext
      exact h.pushBack hb hroom (Or.inr hl)
    | dummy hf hb hroom =>
      rw [hlen]
      exact h.pushBack hb (by omega) (Or.inl rfl)
    | evict hf hb hfull hge hgap he =>
      subst he
      rw [hlen]
      -- the list is full only until the front goes
      exact (h.pushBack hb (by omega) (Or.inl rfl)).popFront

theorem Shaped.addToBuffor (h : Shaped len maxData b) (hl : data.length = len.toNat) (n : ℕ) :
    Shaped len maxData (addToBuffor W b num data n).buf := by
  induction n with
  | zero => exact h.enter hl
  | succ n ih =>
    rw [Receiver.addToBuffor, Function.iterate_succ_apply']
    exact ih.pass hl

/-- **One operation** keeps the shape. -/
theorem Shaped.step {e : ShapeEvent} (h : Shaped len maxData b) (hst : ShapeStep len b e b') :
    Shaped len maxData b' := by
  cases hst with
  | add W num data n hl => exact h.addToBuffor hl n
  | pop hp =>
    obtain ⟨-, rfl⟩ := pop_eq_some.1 hp
    exact h.popFront
  | reset => exact h.reset

theorem Package.Whole.length_le {p : Package} (h : p.Whole len) : p.data.length ≤ len.toNat := by
  rcases h with h | h
  · simp [h]
  · exact le_of_eq h

theorem Shaped.bytes_le (h : Shaped len maxData b) : b.bytes ≤ b.packages.size * len.toNat := by
  have hs := List.sum_le_card_nsmul (b.packages.values.map fun p => p.data.length) len.toNat ?_
  · rwa [List.length_map, NodeList.length_values, Nat.nsmul_eq_mul] at hs
  · intro n hn
    obtain ⟨p, hp, rfl⟩ := List.mem_map.1 hn
    exact (h.whole p hp).length_le

theorem Shaped.shapeOk (h : Shaped len maxData b) (hlen : 0 < len.toNat) : ShapeOk len maxData b := by
  have hroom : b.packages.size ≤ max 1 (maxData / len).toNat := by
    by_cases hne : b.packages.values = []
    · rw [← NodeList.length_values, hne]
      exact Nat.zero_le _
    · rw [← h.size_eq hne]
      exact h.bound
  refine ⟨h.prog, hroom, fun hle => ?_, h.whole⟩
  -- `len` bytes fit, so the bound is `max_data / len`
  have hpos : 1 ≤ (maxData / len).toNat := by
    rw [UInt64.toNat_div]
    exact Nat.div_pos (UInt64.le_iff_toNat_le.1 hle) hlen
  calc b.bytes ≤ b.packages.size * len.toNat := h.bytes_le
    _ ≤ (maxData / len).toNat * len.toNat := Nat.mul_le_mul_right _ (by omega)
    _ ≤ maxData.toNat := by rw [UInt64.toNat_div]; exact Nat.div_mul_le_self _ _

/-- **The shape is kept** by every run of calls with one payload length. -/
theorem shape_kept {len : UInt64} (hlen : 0 < len.toNat) {maxData : UInt64} {es : List ShapeEvent}
    {b : Buffer} (h : Run (ShapeStep len) (Buffer.init maxData) es b) : ShapeOk len maxData b :=
  (h.inv (init_shaped len maxData) fun _ _ _ hI hst => hI.step hst).shapeOk hlen

/-- Room for two packages of one byte: packet 2 after packet 0 evicts it. -/
theorem shape_kept_evicted : ∃ b, b.nums = [1, 2] ∧ ShapeOk 1 2 b := by
  have h0 : Run (ShapeStep 1) (Buffer.init 2) [] (Buffer.init 2) := Run.nil
  have h1 := h0.snoc (ShapeStep.add ⟨fun _ _ => 0, fun _ _ => 0⟩ 0 [7] 0 rfl rfl)
  have h2 := h1.snoc (ShapeStep.add ⟨fun _ _ => 5, fun _ _ => 0⟩ 2 [9] 2 rfl rfl)
  exact ⟨_, rfl, shape_kept (by decide) h2⟩

end SikMimuw.Receiver
