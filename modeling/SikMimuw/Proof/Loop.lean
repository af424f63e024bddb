import SikMimuw.Lib.Window
import SikMimuw.Proof.Buffor

/-!
# The loop of `add_to_buffor`

A call comes to its loop with a list that is neither empty nor full. A pass pushes the next missing
package, and the front goes as soon as the list is full. So a call in its loop shows the last
`size - 1` of the packages that were there and of those that it has pushed.

* `Enters`: the call comes to its loop. `entry_cases`: what else it may do.
* `InLoop`: it has made `j` passes and goes on.
* `InLoop.pass`: what the next pass does. `loop_cases`: what all of them do.
-/

namespace SikMimuw.Receiver

variable {W : Wild} {len num : UInt64} {data : List UInt8} {b : Buffer} {c c' : Call} {back : Package}
  {j n : ℕ}

/-- The call for `num` comes to its loop, and goes through it at least once. -/
structure Enters (b : Buffer) (num : UInt64) (back : Package) : Prop where
  key : b.set.find? num = none
  last : b.packages.values.getLast? = some back
  room : b.packages.size < b.size.toNat

/-- The packages without data that `j` passes push behind the number `back`. -/
def missing (back len : UInt64) (j : ℕ) : List Package :=
  (List.range j).map fun i => ⟨[], back + UInt64.ofNat (i + 1) * len⟩

/-- The packages of the buffer, with those that `j` passes push. -/
def Buffer.grown (b : Buffer) (back len : UInt64) (j : ℕ) : List Package :=
  b.packages.values ++ missing back len j

/-- **The call is in its loop**, after `j` passes. -/
structure InLoop (len : UInt64) (b : Buffer) (back : Package) (j : ℕ) (c : Call) : Prop where
  running : c.done = false
  size : c.buf.size = b.size
  values : c.buf.packages.values = (b.grown back.num len j).rtake (b.size.toNat - 1)
  evictions : c.evictions.length = b.packages.size + j - (b.size.toNat - 1)

/-- All that the pass after `j` passes can do. -/
inductive LoopCase (len num : UInt64) (data : List UInt8) (b : Buffer) (back : Package) (j : ℕ)
    (c : Call) : Call → Prop
  | older {front : Package} (hf : c.buf.packages.values.head? = some front) (hlt : num < front.num) :
      LoopCase len num data b back j c { c with done := true }
  | next {front : Package} (hf : c.buf.packages.values.head? = some front) (hge : front.num ≤ num)
      (hnext : back.num + UInt64.ofNat (j + 1) * len = num) :
      LoopCase len num data b back j c { c with buf := c.buf.append num data, done := true }
  | goesOn {front : Package} {c' : Call} (hf : c.buf.packages.values.head? = some front)
      (hge : front.num ≤ num) (hgap : back.num + UInt64.ofNat (j + 1) * len ≠ num)
      (hc : InLoop len b back (j + 1) c') : LoopCase len num data b back j c c'

/-- All ways in which a call begins. -/
inductive Entry (b : Buffer) (num : UInt64) : Prop
  | missing {it : ℕ} (hkey : b.set.find? num = some it)
  | first (hkey : b.set.find? num = none) (hnil : b.packages.values = [])
  | atOnce (hkey : b.set.find? num = none) (hne : b.packages.values ≠ [])
      (h : b.size.toNat ≤ b.packages.size ∨ ∃ front ∈ b.packages.values.head?, num < front.num)
  | loop {front back : Package} (he : Enters b num back)
      (hf : b.packages.values.head? = some front) (hge : front.num ≤ num)

theorem entry_cases (b : Buffer) (num : UInt64) : Entry b num := by
  cases hkey : b.set.find? num with
  | some it => exact .missing hkey
  | none =>
    by_cases hnil : b.packages.values = []
    · exact .first hkey hnil
    by_cases honce : b.size.toNat ≤ b.packages.size ∨
        ∃ front ∈ b.packages.values.head?, num < front.num
    · exact .atOnce hkey hnil honce
    rw [not_or] at honce
    obtain ⟨front, rest, hv⟩ := List.exists_cons_of_ne_nil hnil
    have hf : b.packages.values.head? = some front := by rw [hv, List.head?_cons]
    exact .loop ⟨hkey, List.getLast?_eq_getLast_of_ne_nil hnil, not_le.1 honce.1⟩ hf
      (not_lt.1 fun hlt => honce.2 ⟨front, hf, hlt⟩)

theorem missing_succ (back len : UInt64) (j : ℕ) :
    missing back len (j + 1) = missing back len j ++ [⟨[], back + UInt64.ofNat (j + 1) * len⟩] := by
  unfold missing
  rw [List.range_succ, List.map_append, List.map_singleton]

theorem length_missing (back len : UInt64) (j : ℕ) : (missing back len j).length = j := by
  simp [missing]

theorem grown_zero (b : Buffer) (back len : UInt64) : b.grown back len 0 = b.packages.values :=
  List.append_nil _

theorem grown_succ (b : Buffer) (back len : UInt64) (j : ℕ) : b.grown back len (j + 1) =
    b.grown back len j ++ [⟨[], back + UInt64.ofNat (j + 1) * len⟩] := by
  unfold Buffer.grown
  rw [missing_succ, List.append_assoc]

theorem length_grown (b : Buffer) (back len : UInt64) (j : ℕ) :
    (b.grown back len j).length = b.packages.size + j := by
  rw [Buffer.grown, List.length_append, length_missing, NodeList.length_values]

theorem Enters.ne_nil (h : Enters b num back) : b.packages.values ≠ [] := by
  intro hn
  have hl := h.last
  rw [hn] at hl
  cases hl

theorem Enters.pos (h : Enters b num back) : 0 < b.packages.size := by
  rw [← NodeList.length_values, List.length_pos_iff]
  exact h.ne_nil

theorem Enters.last_grown (h : Enters b num back) (len : UInt64) (j : ℕ) : ∃ q,
    (b.grown back.num len j).getLast? = some q ∧ q.num = back.num + UInt64.ofNat j * len := by
  cases j with
  | zero =>
    refine ⟨back, ?_, by simp⟩
    rw [grown_zero, h.last]
  | succ j =>
    refine ⟨⟨[], back.num + UInt64.ofNat (j + 1) * len⟩, ?_, rfl⟩
    rw [grown_succ, List.getLast?_concat]

/-- The loop begins. -/
theorem Enters.inLoop (h : Enters b num back) (W : Wild) (len : UInt64) (data : List UInt8) :
    InLoop len b back 0 (addToBuffor W b num data 0) := by
  have hroom := h.room
  rw [addToBuffor_cons h.key h.ne_nil]
  refine ⟨rfl, rfl, ?_, ?_⟩
  · rw [grown_zero, Window.rtake_of_length_le]
    rw [NodeList.length_values]
    omega
  · show 0 = _
    omega

theorem InLoop.length (h : InLoop len b back j c) :
    c.buf.packages.size = min (b.packages.size + j) (b.size.toNat - 1) := by
  rw [← NodeList.length_values, h.values, Window.length_rtake, length_grown]

theorem InLoop.last (h : InLoop len b back j c) (he : Enters b num back) {q : Package}
    (hq : c.buf.packages.values.getLast? = some q) : q.num = back.num + UInt64.ofNat j * len := by
  have hpos := he.pos
  have hroom := he.room
  obtain ⟨q', hq', hnum⟩ := he.last_grown len j
  rw [h.values, Window.getLast?_rtake (by omega), hq', Option.some.injEq] at hq
  rw [← hq, hnum]

/-- One more package, and the front goes if the list is full. -/
theorem InLoop.pushed (h : InLoop len b back j c) {x : Package}
    (hx : x = ⟨[], back.num + UInt64.ofNat (j + 1) * len⟩) :
    (b.grown back.num len (j + 1)).rtake (b.size.toNat - 1) =
      if b.size.toNat - 1 < c.buf.packages.size + 1 then (c.buf.packages.values ++ [x]).tail
      else c.buf.packages.values ++ [x] := by
  rw [grown_succ, Window.rtake_snoc, ← h.values, ← hx, List.length_append, NodeList.length_values,
    List.length_singleton]

/-- **The next pass.** -/
theorem InLoop.pass (h : InLoop len b back j c) (he : Enters b num back)
    (hl : data.length = len.toNat) :
    LoopCase len num data b back j c (c.pass W num data) := by
  have hlen := ofNat_length hl
  have hpos := he.pos
  have hroom := he.room
  have hsize := h.length
  have hc := pass_case W num data h.running
  generalize c.pass W num data = c' at hc
  cases hc with
  | stop hs =>
    rcases hs with hs | hs | ⟨front, hf, hlt⟩
    · rw [h.size] at hs
      omega
    · rw [← NodeList.length_values, hs, List.length_nil] at hsize
      omega
    · exact .older hf hlt
  | append hf hb _ hge hnext =>
    rw [hlen, h.last he hb, ← add_succ_mul] at hnext
    exact .next hf hge hnext
  | @dummy front q hf hb hroom' hge hgap =>
    rw [hlen, h.last he hb, ← add_succ_mul] at hgap
    rw [h.size] at hroom'
    have hx : (⟨[], q.num + len⟩ : Package) = ⟨[], back.num + UInt64.ofNat (j + 1) * len⟩ := by
      rw [h.last he hb, ← add_succ_mul]
    rw [hlen]
    refine .goesOn hf hge hgap ⟨h.running, h.size, ?_, ?_⟩
    · rw [h.pushed hx, if_neg (by omega), Buffer.appendDummy_values]
    · show c.evictions.length = _
      rw [h.evictions]
      omega
  | @evict front q hf hb hfull hge hgap e heq =>
    rw [hlen, h.last he hb, ← add_succ_mul] at hgap
    rw [h.size] at hfull
    have hx : (⟨[], q.num + len⟩ : Package) = ⟨[], back.num + UInt64.ofNat (j + 1) * len⟩ := by
      rw [h.last he hb, ← add_succ_mul]
    rw [hlen] at heq
    subst heq
    refine .goesOn hf hge hgap ⟨h.running, h.size, ?_, ?_⟩
    · rw [h.pushed hx, if_pos (by omega)]
      show (c.buf.appendDummy (q.num + len)).packages.popFront.values = _
      rw [NodeList.values_popFront, Buffer.appendDummy_values]
    · rw [List.length_append, h.evictions, List.length_singleton]
      omega

/-- The next pass of a call. -/
theorem InLoop.succ (h : InLoop len b back j (addToBuffor W b num data j)) (he : Enters b num back)
    (hl : data.length = len.toNat) : LoopCase len num data b back j (addToBuffor W b num data j)
      (addToBuffor W b num data (j + 1)) := by
  rw [addToBuffor_succ]
  exact h.pass he hl

/-- **All passes**: the call is still in its loop, or it has left it in one of them. -/
theorem loop_cases (he : Enters b num back) (hl : data.length = len.toNat) (W : Wild) (n : ℕ) :
    InLoop len b back n (addToBuffor W b num data n) ∨
      ∃ j < n, InLoop len b back j (addToBuffor W b num data j) ∧
        (addToBuffor W b num data (j + 1)).done = true ∧
        addToBuffor W b num data n = addToBuffor W b num data (j + 1) := by
  induction n with
  | zero => exact Or.inl (he.inLoop W len data)
  | succ n ih =>
    rcases ih with h | ⟨j, hj, h, hd, heq⟩
    · cases hd : (addToBuffor W b num data (n + 1)).done with
      | true => exact Or.inr ⟨n, Nat.lt_succ_self n, h, hd, rfl⟩
      | false =>
        have hc := h.succ he hl
        generalize addToBuffor W b num data (n + 1) = c' at hc hd
        cases hc with
        | older => cases hd
        | next => cases hd
        | goesOn _ _ _ hc => exact Or.inl hc
    · refine Or.inr ⟨j, Nat.lt_succ_of_lt hj, h, hd, ?_⟩
      rw [addToBuffor_succ, heq, Call.pass_done W num data hd]

end SikMimuw.Receiver
