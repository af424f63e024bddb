import SikMimuw.Proof.Loop

/-!
# A packet ahead of the buffer

`add_to_buffor` pushes the packages between the buffer and the packet, and pops those at the front
that have no room. Whatever line 38 reads, this gives the last `size` packages of the stream up to
the packet.

* `Stretch`: the buffer before the call.
* `ahead_ok`: the buffer after it.
-/

namespace SikMimuw.Receiver

variable {len num : UInt64} {data : List UInt8} {b : Buffer} {c : Call} {back : Package} {k j : ℕ}

/-- Each number is `len` above the one before it, and none wraps. -/
def Ascending (len : UInt64) (l : List UInt64) : Prop :=
  l.IsChain fun x y => y.toNat = x.toNat + len.toNat

/-- **A stretch of the stream** that ends with `back` and has room: the keys of `set` are among its
numbers. -/
structure Stretch (len : UInt64) (b : Buffer) (back : Package) : Prop where
  ascending : Ascending len b.nums
  last : b.packages.values.getLast? = some back
  keys : ∀ k ∈ b.set.keys, k ∈ b.nums
  room : b.packages.size < b.size.toNat

theorem Ascending.le_last {l : List UInt64} {x y : UInt64} (h : Ascending len l) (hx : x ∈ l)
    (hy : l.getLast? = some y) : x.toNat ≤ y.toNat := by
  obtain ⟨l', rfl⟩ := List.getLast?_eq_some_iff.1 hy
  have hle : (l' ++ [y]).IsChain fun x y => x.toNat ≤ y.toNat := by
    refine List.IsChain.imp (fun a b hab => ?_) h
    rw [hab]
    exact Nat.le_add_right _ _
  have hp : (l' ++ [y]).Pairwise fun x y => x.toNat ≤ y.toNat := by
    have : IsTrans UInt64 fun x y => x.toNat ≤ y.toNat := ⟨fun _ _ _ => le_trans⟩
    exact List.isChain_iff_pairwise.1 hle
  rcases List.mem_append.1 hx with hx | hx
  · exact (List.pairwise_append.1 hp).2.2 x hx y (List.mem_singleton_self y)
  · rw [List.mem_singleton.1 hx]

/-- The number `k` places behind the back, where it does not wrap. -/
theorem toNat_behind (hw : back.num.toNat + k * len.toNat < 2 ^ 64) :
    (back.num + UInt64.ofNat k * len).toNat = back.num.toNat + k * len.toNat := by
  rw [Progression.toNat_nth, Nat.mod_eq_of_lt hw]

theorem Stretch.le_back (h : Stretch len b back) {x : UInt64} (hx : x ∈ b.nums) :
    x.toNat ≤ back.num.toNat := h.ascending.le_last hx (nums_getLast h.last)

/-- The numbers up to the `j`-th pass are at most the last of them. -/
theorem Stretch.le_grown (h : Stretch len b back) (hw : back.num.toNat + j * len.toNat < 2 ^ 64)
    {p : Package} (hp : p ∈ b.grown back.num len j) :
    p.num.toNat ≤ back.num.toNat + j * len.toNat := by
  rcases List.mem_append.1 hp with hp | hp
  · have hle := h.le_back (List.mem_map.2 ⟨p, hp, rfl⟩)
    exact le_trans hle (Nat.le_add_right _ _)
  · obtain ⟨i, hi, rfl⟩ := List.mem_map.1 hp
    have hij : (i + 1) * len.toNat ≤ j * len.toNat :=
      Nat.mul_le_mul_right _ (List.mem_range.1 hi)
    show (back.num + UInt64.ofNat (i + 1) * len).toNat ≤ _
    rw [toNat_behind (by omega)]
    omega

/-- The call for a packet behind the back comes to its loop. -/
theorem Stretch.enters (h : Stretch len b back) (hlen : 0 < len.toNat) (hk : 1 ≤ k)
    (hw : back.num.toNat + k * len.toNat < 2 ^ 64) :
    Enters b (back.num + UInt64.ofNat k * len) back := by
  refine ⟨OrdMap.find?_eq_none.2 fun it hit => ?_, h.last, h.room⟩
  have hle := h.le_back (h.keys _ (OrdMap.mem_keys.2 ⟨it, hit⟩))
  rw [toNat_behind hw] at hle
  have hpos : 0 < k * len.toNat := Nat.mul_pos hk hlen
  omega

/-- The packet is not older than the front. -/
theorem Stretch.front_le (h : Stretch len b back) (hw : back.num.toNat + k * len.toNat < 2 ^ 64)
    (hj : j < k) {front : Package} (hin : InLoop len b back j c)
    (hf : c.buf.packages.values.head? = some front) :
    front.num ≤ back.num + UInt64.ofNat k * len := by
  have hle : j * len.toNat ≤ k * len.toNat := Nat.mul_le_mul_right _ (le_of_lt hj)
  -- the front is one of the packages so far
  have hmem : front ∈ b.grown back.num len j := by
    have hm := List.mem_of_mem_head? hf
    rw [hin.values] at hm
    exact List.mem_of_mem_drop hm
  have hfront := h.le_grown (by omega) hmem
  rw [UInt64.le_iff_toNat_le, toNat_behind hw]
  omega

/-- The loop goes on up to the place before the packet's. -/
theorem Stretch.inLoop (h : Stretch len b back) (hlen : 0 < len.toNat)
    (hw : back.num.toNat + k * len.toNat < 2 ^ 64) (hl : data.length = len.toNat) (W : Wild) :
    ∀ j, j < k → InLoop len b back j (addToBuffor W b (back.num + UInt64.ofNat k * len) data j) := by
  intro j
  induction j with
  | zero =>
    intro hk
    exact (h.enters hlen hk hw).inLoop W len data
  | succ j ih =>
    intro hj
    have hin := ih (by omega)
    have hlt : (j + 1) * len.toNat < k * len.toNat := Nat.mul_lt_mul_of_pos_right hj hlen
    have hc := hin.succ (h.enters hlen (by omega) hw) hl
    generalize addToBuffor W b (back.num + UInt64.ofNat k * len) data (j + 1) = c' at hc
    cases hc with
    | older hf hnum => exact absurd hnum (not_lt.2 (h.front_le hw (by omega) hin hf))
    | next _ _ hnext =>
      have he := congrArg UInt64.toNat hnext
      rw [toNat_behind (by omega), toNat_behind hw] at he
      omega
    | goesOn _ _ _ hc => exact hc

/-- **A packet ahead of the buffer**: `add_to_buffor` returns, with the last `size` of the packages
that were there, the missing ones and the new one. -/
theorem ahead_ok (W : Wild) {len : UInt64} (hlen : 0 < len.toNat) {b : Buffer} {back : Package}
    (h : Stretch len b back) {k : ℕ} (hk : 1 ≤ k) (hw : back.num.toNat + k * len.toNat < 2 ^ 64)
    {data : List UInt8} (hl : data.length = len.toNat) :
    ∃ n, (addToBuffor W b (back.num + UInt64.ofNat k * len) data n).done = true ∧
      (addToBuffor W b (back.num + UInt64.ofNat k * len) data n).buf.packages.values =
        (b.packages.values ++ missing back.num len (k - 1) ++
          [(⟨data, back.num + UInt64.ofNat k * len⟩ : Package)]).rtake b.size.toNat := by
  obtain ⟨j, rfl⟩ : ∃ j, k = j + 1 := ⟨k - 1, by omega⟩
  have hin := h.inLoop hlen hw hl W j (Nat.lt_succ_self j)
  have hroom := h.room
  obtain ⟨s, hs⟩ : ∃ s, b.size.toNat = s + 1 := ⟨b.size.toNat - 1, by omega⟩
  have hvalues := hin.values
  rw [hs, Nat.add_sub_cancel] at hvalues
  have hc := hin.pass (W := W) (h.enters hlen hk hw) hl
  refine ⟨j + 1, ?_⟩
  rw [addToBuffor_succ, hs, List.rtake_concat_succ]
  generalize addToBuffor W b (back.num + UInt64.ofNat (j + 1) * len) data j = c at hin hvalues hc ⊢
  generalize c.pass W (back.num + UInt64.ofNat (j + 1) * len) data = c' at hc
  cases hc with
  | older hf hnum => exact absurd hnum (not_lt.2 (h.front_le hw (Nat.lt_succ_self j) hin hf))
  | goesOn _ _ hgap _ => exact absurd rfl hgap
  | next _ _ _ =>
    refine ⟨rfl, ?_⟩
    show (c.buf.packages.pushBack _).values = _
    rw [NodeList.values_pushBack, hvalues]
    rfl

/-- Room for three packages of one byte: packet 4 comes after packets 0 and 1, and evicts both. -/
theorem ahead_ok_gap : ∃ b n, b.packages.values = [⟨[7], 0⟩, ⟨[8], 1⟩] ∧
    (addToBuffor ⟨fun _ _ => 0, fun _ _ => 0⟩ b 4 [9] n).buf.packages.values =
      [⟨[], 2⟩, ⟨[], 3⟩, ⟨[9], 4⟩] := by
  have hs : Stretch 1 (addToBuffor ⟨fun _ _ => 0, fun _ _ => 0⟩
      (addToBuffor ⟨fun _ _ => 0, fun _ _ => 0⟩ (Buffer.init 3) 0 [7] 0).buf 1 [8] 1).buf ⟨[8], 1⟩ :=
    { ascending := List.isChain_cons_cons.2 ⟨rfl, List.isChain_singleton _⟩
      last := rfl
      keys := fun k hk => by cases hk
      room := by decide }
  obtain ⟨n, -, hv⟩ := ahead_ok ⟨fun _ _ => 0, fun _ _ => 0⟩ (by decide) hs (k := 3) (by decide)
    (by decide) (show ([9] : List UInt8).length = (1 : UInt64).toNat from rfl)
  exact ⟨_, n, rfl, hv⟩

end SikMimuw.Receiver
