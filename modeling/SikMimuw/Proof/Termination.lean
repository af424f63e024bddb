import SikMimuw.Lib.Run
import SikMimuw.Proof.Loop
import SikMimuw.Proof.Shape

/-!
# Termination of `add_to_buffor`

The loop ends when it has pushed the place before the packet's, or when the front has passed the
packet. The numbers of the places wrap, and all have the residue of the front modulo the greatest
power of two in `len`. A packet above the last 64-bit number of that residue is never met and never
passed, and the loop goes on for ever, with `mutex_buffor` held.

* `grown_num`: the numbers of the places.
* `returns_iff`: the exact condition. `call_returns_iff`: in every state between calls.
-/

namespace SikMimuw.Receiver

open Lts

variable {W : Wild} {len num : UInt64} {data : List UInt8} {b : Buffer} {c : Call}
  {front back p : Package} {i j : ℕ}

/-- **The call returns**: its loop ends. -/
def Returns (W : Wild) (b : Buffer) (num : UInt64) (data : List UInt8) : Prop :=
  ∃ n, (addToBuffor W b num data n).done = true

/-- The call does not come to its loop, or the packet is not above the greatest number that the
places of the buffer come to. -/
def Ends (len : UInt64) (b : Buffer) (num : UInt64) : Prop :=
  (∃ it, (num, it) ∈ b.set.entries) ∨ b.packages.values = [] ∨
    b.size.toNat ≤ b.packages.size ∨
    ∃ front ∈ b.packages.values.head?, num.toNat ≤ Progression.top front.num len

theorem grown_progression (h : Progression len b.nums) (hb : b.packages.values.getLast? = some back) :
    ∀ j, Progression len ((b.grown back.num len j).map Package.num) := by
  intro j
  induction j with
  | zero =>
    rw [grown_zero]
    exact h
  | succ j ih =>
    rw [grown_succ, List.map_append, List.map_singleton, add_succ_mul]
    apply ih.snoc
    rw [List.getLast?_map]
    cases j with
    | zero =>
      rw [grown_zero, hb]
      simp
    | succ j =>
      rw [grown_succ, List.getLast?_concat]
      rfl

/-- **The number of a place**, from the front. -/
theorem grown_num (h : Progression len b.nums) (hf : b.packages.values.head? = some front)
    (hb : b.packages.values.getLast? = some back) (hp : (b.grown back.num len j)[i]? = some p) :
    p.num = front.num + UInt64.ofNat i * len := by
  have hg := grown_progression h hb j
  obtain ⟨rest, hrest⟩ := List.head?_eq_some_iff.1 hf
  obtain ⟨l, hl⟩ : ∃ l, b.grown back.num len j = front :: l := by
    unfold Buffer.grown
    rw [hrest]
    exact ⟨_, rfl⟩
  rw [hl] at hg hp
  obtain ⟨hi, hp⟩ := List.getElem?_eq_some_iff.1 hp
  have hn := hg.getElem i (by rw [List.length_cons, List.length_map]; exact hi)
  apply UInt64.toNat_inj.1
  rw [Progression.toNat_nth, ← hn, ← hp]
  exact congrArg UInt64.toNat (List.getElem_map (f := Package.num) (l := front :: l)).symm

/-- The front, after `j` passes. -/
theorem InLoop.front_num (h : InLoop len b back j c) (hp : Progression len b.nums)
    (hf : b.packages.values.head? = some front) (he : Enters b num back)
    (hc : c.buf.packages.values.head? = some p) :
    p.num = front.num + UInt64.ofNat (b.packages.size + j - (b.size.toNat - 1)) * len := by
  rw [List.head?_eq_getElem?, h.values, Window.getElem?_rtake, length_grown, Nat.add_zero] at hc
  exact grown_num hp hf he.last hc

/-- The place that the next pass compares with the packet. -/
theorem next_num (hp : Progression len b.nums) (hf : b.packages.values.head? = some front)
    (hb : b.packages.values.getLast? = some back) (j : ℕ) :
    back.num + UInt64.ofNat (j + 1) * len =
      front.num + UInt64.ofNat (b.packages.size + j) * len := by
  have hlast : (b.grown back.num len (j + 1))[b.packages.size + j]? =
      some ⟨[], back.num + UInt64.ofNat (j + 1) * len⟩ := by
    rw [grown_succ, ← length_grown b back.num len j, List.getElem?_concat_length]
  exact grown_num hp hf hb hlast

/-- A call that leaves its loop has met the packet's place, or passed it. -/
theorem ends_of_returns (hp : Progression len b.nums) (hf : b.packages.values.head? = some front)
    (he : Enters b num back) (hl : data.length = len.toNat) (hr : Returns W b num data) :
    num.toNat ≤ Progression.top front.num len := by
  obtain ⟨n, hd⟩ := hr
  rcases loop_cases he hl W n with h | ⟨j, -, h, hd, -⟩
  · rw [h.running] at hd
    cases hd
  · have hc := h.succ he hl
    generalize addToBuffor W b num data (j + 1) = c' at hc hd
    cases hc with
    | older hc hlt =>
      rw [h.front_num hp hf he hc, UInt64.lt_iff_toNat_lt] at hlt
      have htop := Progression.nth_le_top front.num len (b.packages.size + j - (b.size.toNat - 1))
      omega
    | next _ _ hnext =>
      rw [← hnext, next_num hp hf he.last]
      exact Progression.nth_le_top _ _ _
    | goesOn _ _ _ hc =>
      rw [hc.running] at hd
      cases hd

/-- A call for a packet at `top` or below leaves its loop. -/
theorem returns_of_ends (hlen : 0 < len.toNat) (hp : Progression len b.nums)
    (hf : b.packages.values.head? = some front) (he : Enters b num back)
    (hl : data.length = len.toNat) (htop : num.toNat ≤ Progression.top front.num len) :
    Returns W b num data := by
  by_contra hr
  have hroom := he.room
  -- the call is in its loop for ever
  have hin : ∀ j, InLoop len b back j (addToBuffor W b num data j) := by
    intro j
    rcases loop_cases he hl W j with h | ⟨i, -, -, hd, -⟩
    · exact h
    · exact absurd ⟨i + 1, hd⟩ hr
  have hgoes : ∀ j, (∃ f, (addToBuffor W b num data j).buf.packages.values.head? = some f ∧
      f.num ≤ num) ∧ back.num + UInt64.ofNat (j + 1) * len ≠ num := by
    intro j
    have hc := (hin j).succ he hl
    have hrun := (hin (j + 1)).running
    generalize addToBuffor W b num data (j + 1) = c' at hc hrun
    cases hc with
    | older => cases hrun
    | next => cases hrun
    | goesOn hc hge hgap => exact ⟨⟨_, hc, hge⟩, hgap⟩
  obtain ⟨i, hi, hnum⟩ := Progression.reaches_top (a := front.num) hlen b.packages.size
  rcases Nat.lt_or_eq_of_le htop with hlt | heq
  · -- the front comes to `top`, above the packet
    obtain ⟨f, hc, hge⟩ := (hgoes (i + (b.size.toNat - 1) - b.packages.size)).1
    have hj : b.packages.size + (i + (b.size.toNat - 1) - b.packages.size) -
        (b.size.toNat - 1) = i := by omega
    rw [(hin _).front_num hp hf he hc, hj, UInt64.le_iff_toNat_le] at hge
    omega
  · -- the next place comes to `top`, where the packet is
    have hgap := (hgoes (i - b.packages.size)).2
    have hj : b.packages.size + (i - b.packages.size) = i := by omega
    rw [next_num hp hf he.last, hj] at hgap
    exact hgap (UInt64.toNat_inj.1 (by rw [hnum, heq]))

/-- **A call returns** exactly if it ends. -/
theorem returns_iff (hlen : 0 < len.toNat) (hp : Progression len b.nums)
    (hl : data.length = len.toNat) : Returns W b num data ↔ Ends len b num := by
  cases entry_cases b num with
  | @missing it hkey =>
    have hret : Returns W b num data := ⟨0, by rw [addToBuffor_key hkey]⟩
    exact iff_of_true hret (Or.inl ⟨it, OrdMap.find?_eq_some.1 hkey⟩)
  | first hkey hnil =>
    have hret : Returns W b num data := ⟨0, by rw [addToBuffor_nil hkey hnil]⟩
    exact iff_of_true hret (Or.inr (Or.inl hnil))
  | atOnce hkey hne honce =>
    have hret : Returns W b num data := ⟨1, by rw [addToBuffor_at_once hkey hne honce]⟩
    refine iff_of_true hret (Or.inr (Or.inr ?_))
    rcases honce with hfull | ⟨front, hf, hlt⟩
    · exact Or.inl hfull
    · rw [UInt64.lt_iff_toNat_lt] at hlt
      have htop : front.num.toNat ≤ Progression.top front.num len := Progression.le_top rfl
      exact Or.inr ⟨front, hf, by omega⟩
  | @loop front back he hf =>
    have hends : Ends len b num ↔ num.toNat ≤ Progression.top front.num len := by
      have hno : ¬ ∃ it, (num, it) ∈ b.set.entries := fun ⟨it, hit⟩ =>
        OrdMap.find?_eq_none.1 he.key it hit
      have hroom : ¬ b.size.toNat ≤ b.packages.size := not_le.2 he.room
      unfold Ends
      simp [hno, he.ne_nil, hroom, hf]
    rw [hends]
    exact ⟨ends_of_returns hp hf he hl, returns_of_ends hlen hp hf he hl⟩

/-- **Termination.** In every state between calls with one payload length, a call returns exactly if
it does not come to its loop or the packet is not above the last number of the front's residue. -/
theorem call_returns_iff {len : UInt64} (hlen : 0 < len.toNat) {maxData : UInt64}
    {es : List ShapeEvent} {b : Buffer} (h : Run (ShapeStep len) (Buffer.init maxData) es b)
    (W : Wild) (num : UInt64) {data : List UInt8} (hl : data.length = len.toNat) :
    Returns W b num data ↔ Ends len b num := by
  have hs : Shaped len maxData b :=
    h.inv (init_shaped len maxData) fun _ _ _ hI hst => hI.step hst
  exact returns_iff hlen hs.prog hl

/-- Room for two packages of two bytes: after packet 0, packet `2 ^ 64 - 2` is met. -/
theorem call_returns_iff_even : ∃ b, b.nums = [0] ∧
    Returns ⟨fun _ _ => 0, fun _ _ => 0⟩ b 0xFFFFFFFFFFFFFFFE [8, 8] := by
  have h0 : Run (ShapeStep 2) (Buffer.init 4) [] (Buffer.init 4) := Run.nil
  have h1 := h0.snoc (ShapeStep.add ⟨fun _ _ => 0, fun _ _ => 0⟩ 0 [7, 7] 0 rfl rfl)
  refine ⟨_, rfl, (call_returns_iff (by decide) h1 _ _ rfl).2 ?_⟩
  exact Or.inr (Or.inr (Or.inr ⟨⟨[7, 7], 0⟩, rfl, by decide⟩))

/-- After packet 0 of two bytes, packet `2 ^ 64 - 1` keeps the call in its loop for ever. -/
theorem loops_for_ever : ¬ ∀ (len maxData : UInt64) (es : List ShapeEvent) (b : Buffer),
    0 < len.toNat → Run (ShapeStep len) (Buffer.init maxData) es b →
      ∀ (W : Wild) (num : UInt64) (data : List UInt8), data.length = len.toNat →
        Returns W b num data := by
  intro h
  have h0 : Run (ShapeStep 2) (Buffer.init 4) [] (Buffer.init 4) := Run.nil
  have h1 := h0.snoc (ShapeStep.add ⟨fun _ _ => 0, fun _ _ => 0⟩ 0 [7, 7] 0 rfl rfl)
  have hr := h 2 4 _ _ (by decide) h1 ⟨fun _ _ => 0, fun _ _ => 0⟩ 0xFFFFFFFFFFFFFFFF [8, 8] rfl
  have hp : Progression 2 [0] := Progression.singleton 0
  rw [returns_iff (by decide) hp rfl] at hr
  rcases hr with ⟨it, hit⟩ | hnil | hfull | ⟨front, hf, htop⟩
  · cases hit
  · cases hnil
  · exact absurd hfull (by decide)
  · obtain rfl := Option.some.inj hf
    exact absurd htop (by decide)

end SikMimuw.Receiver
