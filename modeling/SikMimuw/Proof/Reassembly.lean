import Mathlib.Data.List.Range
import SikMimuw.Model.Threads
import SikMimuw.Proof.Ahead
import SikMimuw.Proof.Eviction

/-!
# Packets in any order

`Stores W b ds b'`: `add_to_buffor` is called for the packets `ds`, and no call evicts.

* `fills_ok`: the packets that are missing, in any order.
* `Stretch.ahead_fits`: a packet ahead of the buffer, with room for all up to it.
* `reassembled`: what the buffer holds depends on the packets that have come, not on their order.
-/

namespace SikMimuw.Receiver

variable {W : Wild} {b b' : Buffer} {len num : UInt64} {data : List UInt8}

/-- The packets are stored one behind the other; every call returns and evicts nothing. -/
inductive Stores (W : Wild) : Buffer → List Datagram → Buffer → Prop
  | nil {b : Buffer} : Stores W b [] b
  | cons {b b' : Buffer} {d : Datagram} {ds : List Datagram} (n : ℕ)
      (hd : (addToBuffor W b d.num d.data n).done = true)
      (he : (addToBuffor W b d.num d.data n).evictions = [])
      (h : Stores W (addToBuffor W b d.num d.data n).buf ds b') : Stores W b (d :: ds) b'

/-- The one missing package of that number gets its data. -/
theorem values_fill (h : BufOk len b) {it : ℕ} (hit : (num, it) ∈ b.set.entries) :
    (b.fill it num data).packages.values =
      b.packages.values.map fun p => if p = ⟨[], num⟩ then ⟨data, num⟩ else p := by
  unfold Buffer.fill NodeList.modify NodeList.values
  dsimp only
  rw [List.map_map, List.map_map]
  refine List.map_congr_left fun n hn => ?_
  dsimp only [Function.comp_apply]
  have hd : b.packages.Designates n.1 n.2 := hn
  by_cases hni : n.1 = it
  · -- the node of the iterator is the hole
    have hp : n.2 = ⟨[], num⟩ := by
      rw [hni] at hd
      exact hd.unique ((h.keys num it).1 hit)
    rw [if_pos hni, hp, if_pos rfl]
  · rw [if_neg hni, if_neg]
    intro hp
    rw [hp] at hd
    exact hni (OrdMap.mem_unique ((h.keys num n.1).2 hd) hit)

/-- **The packets of missing packages**, in any order: each goes to its place, and the rest stays
as it is. -/
theorem fills_ok (ses : UInt64) {g : UInt64 → List UInt8} {ns : List UInt64} (hnd : ns.Nodup)
    (hg : ∀ n ∈ ns, g n ≠ []) (hb : BufOk len b) (hk : ∀ n ∈ ns, n ∈ b.set.keys) :
    ∃ b', Stores W b (ns.map fun n => ⟨ses, n, g n⟩) b' ∧ BufOk len b' ∧
      b'.packages.values = b.packages.values.map (fun p =>
        if p.data = [] ∧ p.num ∈ ns then ⟨g p.num, p.num⟩ else p) ∧
      ∀ k, k ∈ b'.set.keys ↔ k ∈ b.set.keys ∧ k ∉ ns := by
  induction ns generalizing b with
  | nil => exact ⟨b, .nil, hb, by simp, by simp⟩
  | cons n ns ih =>
    obtain ⟨hn, hnd⟩ := List.nodup_cons.1 hnd
    obtain ⟨it, hit⟩ := OrdMap.mem_keys.1 (hk n List.mem_cons_self)
    have hgn := hg n List.mem_cons_self
    have henter : b.enter n (g n) = ⟨b.fill it n (g n), [], true⟩ := by
      unfold Buffer.enter
      rw [OrdMap.find?_eq_some.2 hit]
    have hkeys : ∀ k, k ∈ (b.fill it n (g n)).set.keys ↔ k ≠ n ∧ k ∈ b.set.keys :=
      fun k => by
        rw [OrdMap.mem_keys, OrdMap.mem_keys]
        show (∃ v, (k, v) ∈ (b.set.erase n).entries) ↔ _
        simp only [OrdMap.mem_erase, exists_and_left]
    obtain ⟨b', hst, hb', hv, hs⟩ := ih hnd (fun m hm => hg m (List.mem_cons_of_mem _ hm))
      (hb.fill hit hgn) fun m hm =>
        (hkeys m).2 ⟨ne_of_mem_of_not_mem hm hn, hk m (List.mem_cons_of_mem _ hm)⟩
    refine ⟨b', ?_, hb', ?_, fun k => ?_⟩
    · refine .cons 0 ?_ ?_ ?_ <;> unfold addToBuffor <;> rw [Function.iterate_zero, id_eq, henter]
      exact hst
    · rw [hv, values_fill hb hit, List.map_map]
      refine List.map_congr_left fun p _ => ?_
      dsimp only [Function.comp_apply]
      by_cases hp : p = ⟨[], n⟩
      · rw [if_pos hp, if_neg (fun h => hgn h.1), if_pos (by simp [hp]), hp]
      · have hne : ∀ hd : p.data = [], p.num ≠ n := by
          rintro hd rfl
          exact hp (by rw [← hd])
        rw [if_neg hp]
        refine if_congr ⟨fun h => ⟨h.1, List.mem_cons_of_mem _ h.2⟩, fun h => ⟨h.1, ?_⟩⟩ rfl rfl
        exact (List.mem_cons.1 h.2).resolve_left (hne h.1)
    · rw [hs, hkeys, List.mem_cons]
      tauto

theorem Stores.append {b₁ b₂ : Buffer} {ds es : List Datagram} (h : Stores W b ds b₁)
    (h' : Stores W b₁ es b₂) : Stores W b (ds ++ es) b₂ := by
  induction h with
  | nil => exact h'
  | cons n hd he _ ih => exact .cons n hd he (ih h')

/-! ### A packet ahead -/

section Ahead

variable {back : Package} {k : ℕ}

/-- **A packet ahead of the buffer**, with room for all the packages up to it. -/
theorem Stretch.ahead_fits (h : Stretch len b back) (hlen : 0 < len.toNat) (hk : 1 ≤ k)
    (hw : back.num.toNat + k * len.toNat < 2 ^ 64) (hl : data.length = len.toNat)
    (hfit : b.packages.size + k ≤ b.size.toNat) (W : Wild) :
    ∃ n, (addToBuffor W b (back.num + UInt64.ofNat k * len) data n).done = true ∧
      (addToBuffor W b (back.num + UInt64.ofNat k * len) data n).evictions = [] ∧
      (addToBuffor W b (back.num + UInt64.ofNat k * len) data n).buf.size = b.size ∧
      (addToBuffor W b (back.num + UInt64.ofNat k * len) data n).buf.packages.values =
        b.packages.values ++ missing back.num len (k - 1) ++
          [(⟨data, back.num + UInt64.ofNat k * len⟩ : Package)] := by
  obtain ⟨j, rfl⟩ : ∃ j, k = j + 1 := ⟨k - 1, by omega⟩
  have hin := h.inLoop hlen hw hl W j (Nat.lt_succ_self j)
  -- nothing has gone so far
  have hgrown : (b.grown back.num len j).length = b.packages.size + j := length_grown b back.num len j
  have hvalues := hin.values
  rw [Window.rtake_of_length_le (by omega)] at hvalues
  have hevictions : (addToBuffor W b (back.num + UInt64.ofNat (j + 1) * len) data j).evictions = [] := by
    apply List.eq_nil_of_length_eq_zero
    rw [hin.evictions]
    omega
  have hc := hin.pass (W := W) (h.enters hlen hk hw) hl
  refine ⟨j + 1, ?_⟩
  rw [addToBuffor_succ]
  generalize addToBuffor W b (back.num + UInt64.ofNat (j + 1) * len) data j = c
    at hin hvalues hevictions hc ⊢
  generalize c.pass W (back.num + UInt64.ofNat (j + 1) * len) data = c' at hc
  cases hc with
  | older hf hnum => exact absurd hnum (not_lt.2 (h.front_le hw (Nat.lt_succ_self j) hin hf))
  | goesOn _ _ hgap _ => exact absurd rfl hgap
  | next _ _ _ =>
    refine ⟨rfl, hevictions, hin.size, ?_⟩
    show (c.buf.packages.pushBack _).values = _
    rw [NodeList.values_pushBack, hvalues]
    rfl

end Ahead

/-! ### Any order -/

section Order

variable {a maxData : UInt64} {g : ℕ → List UInt8} {is : List ℕ} {n size : ℕ}

/-- The number of block `i` of a stream that begins at `a`. -/
def nth (a len : UInt64) (i : ℕ) : UInt64 := a + UInt64.ofNat i * len

/-- **What is there of the first `n` blocks** when those of `is` have come. -/
def arrived (a len : UInt64) (g : ℕ → List UInt8) (is : List ℕ) (n : ℕ) : List Package :=
  (List.range n).map fun i => ⟨if i ∈ is then g i else [], nth a len i⟩

theorem nth_add (a len : UInt64) (i k : ℕ) :
    nth a len i + UInt64.ofNat k * len = nth a len (i + k) := by
  unfold nth
  rw [UInt64.ofNat_add, UInt64.add_mul, UInt64.add_assoc]

theorem toNat_nth_lt (hw : a.toNat + size * len.toNat < 2 ^ 64) {i : ℕ} (hi : i ≤ size) :
    (nth a len i).toNat = a.toNat + i * len.toNat := by
  have hle : i * len.toNat ≤ size * len.toNat := Nat.mul_le_mul_right _ hi
  unfold nth
  rw [Progression.toNat_nth, Nat.mod_eq_of_lt (by omega)]

theorem nth_inj (hlen : 0 < len.toNat) (hw : a.toNat + size * len.toNat < 2 ^ 64) {i j : ℕ}
    (hi : i ≤ size) (hj : j ≤ size) (h : nth a len i = nth a len j) : i = j := by
  have he := congrArg UInt64.toNat h
  rw [toNat_nth_lt hw hi, toNat_nth_lt hw hj] at he
  exact Nat.eq_of_mul_eq_mul_right hlen (by omega)

theorem arrived_succ (a len : UInt64) (g : ℕ → List UInt8) (is : List ℕ) (n : ℕ) :
    arrived a len g is (n + 1) =
      arrived a len g is n ++ [(⟨if n ∈ is then g n else [], nth a len n⟩ : Package)] := by
  unfold arrived
  rw [List.range_succ, List.map_append, List.map_singleton]

theorem length_arrived : (arrived a len g is n).length = n := by
  unfold arrived
  rw [List.length_map, List.length_range]

theorem ascending_arrived (hw : a.toNat + size * len.toNat < 2 ^ 64) (hn : n ≤ size) :
    Ascending len ((arrived a len g is n).map Package.num) := by
  unfold arrived Ascending
  rw [List.map_map, List.isChain_map]
  cases n with
  | zero => exact List.isChain_nil
  | succ n =>
    rw [List.isChain_range_succ]
    intro i hi
    show (nth a len (i + 1)).toNat = (nth a len i).toNat + len.toNat
    rw [toNat_nth_lt hw (by omega), toNat_nth_lt hw (by omega), Nat.succ_mul, Nat.add_assoc]

/-- Behind the first blocks nothing has come. -/
theorem arrived_add (k : ℕ) (hlt : ∀ i ∈ is, i < n + 1) : arrived a len g is (n + 1 + k) =
    arrived a len g is (n + 1) ++ missing (nth a len n) len k := by
  unfold arrived missing
  rw [List.range_add, List.map_append, List.map_map]
  congr 1
  apply List.map_congr_left
  intro i _
  dsimp only [Function.comp_apply]
  have hout : n + 1 + i ∉ is := by
    intro hi
    have := hlt _ hi
    omega
  rw [if_neg hout, nth_add]
  congr 2
  omega

theorem arrived_congr {js : List ℕ} (h : ∀ i < n, i ∈ is ↔ i ∈ js) :
    arrived a len g is n = arrived a len g js n := by
  unfold arrived
  apply List.map_congr_left
  intro i hi
  rw [if_congr (h i (List.mem_range.1 hi)) rfl rfl]

/-- **The buffer of a stream of which the blocks `is` have come**, the last of them block `n - 1`. -/
structure Partly (a len : UInt64) (g : ℕ → List UInt8) (size : ℕ) (is : List ℕ) (n : ℕ)
    (b : Buffer) : Prop where
  ok : BufOk len b
  size : b.size.toNat = size
  values : b.packages.values = arrived a len g is n

theorem Partly.packages_size (h : Partly a len g size is n b) : b.packages.size = n := by
  rw [← NodeList.length_values, h.values, length_arrived]

/-- The first packet is the beginning of the stream. -/
theorem partly_first (W : Wild) (ses a maxData : UInt64) {g : ℕ → List UInt8} (hlen : 0 < len.toNat)
    (hl : (g 0).length = len.toNat) : ∃ b, Stores W (Buffer.init maxData) [⟨ses, nth a len 0, g 0⟩] b ∧
      Partly a len g (maxData / len).toNat [0] 1 b := by
  have hinit := init_ok len maxData
  have henter : (Buffer.init maxData).enter (nth a len 0) (g 0) =
      ⟨{ Buffer.init maxData with size := maxData / len }.append (nth a len 0) (g 0), [], true⟩ := by
    rw [← ofNat_length hl]
    rfl
  refine ⟨_, .cons 0 ?_ ?_ .nil, ?_⟩
  · unfold addToBuffor
    rw [Function.iterate_zero, id_eq, henter]
  · unfold addToBuffor
    rw [Function.iterate_zero, id_eq, henter]
  · unfold addToBuffor
    rw [Function.iterate_zero, id_eq, henter]
    exact ⟨hinit.first rfl (ne_nil_of_length hlen hl), rfl, rfl⟩

/-- **A block that is missing.** -/
theorem Partly.fill (h : Partly a len g size is n b) (W : Wild) (ses : UInt64)
    (hlen : 0 < len.toNat) (hl : ∀ i, (g i).length = len.toNat)
    (hw : a.toNat + size * len.toNat < 2 ^ 64) (hn : n ≤ size) {i : ℕ} (hi : i < n) (hout : i ∉ is) :
    ∃ b', Stores W b [⟨ses, nth a len i, g i⟩] b' ∧ Partly a len g size (is ++ [i]) n b' := by
  have hne : ∀ j, g j ≠ [] := fun j => ne_nil_of_length hlen (hl j)
  have hmem : (⟨[], nth a len i⟩ : Package) ∈ b.packages.values := by
    rw [h.values]
    refine List.mem_map.2 ⟨i, List.mem_range.2 hi, ?_⟩
    rw [if_neg hout]
  obtain ⟨it, hd⟩ := NodeList.exists_designates hmem
  have hit := (h.ok.keys _ _).2 hd
  have henter : b.enter (nth a len i) (g i) = ⟨b.fill it (nth a len i) (g i), [], true⟩ := by
    unfold Buffer.enter
    rw [OrdMap.find?_eq_some.2 hit]
  refine ⟨b.fill it (nth a len i) (g i), ?_, h.ok.fill hit (hne i), h.size, ?_⟩
  · refine .cons 0 ?_ ?_ ?_ <;> unfold addToBuffor <;> rw [Function.iterate_zero, id_eq, henter]
    exact .nil
  · rw [values_fill h.ok hit, h.values]
    unfold arrived
    rw [List.map_map]
    apply List.map_congr_left
    intro j hj
    rw [List.mem_range] at hj
    dsimp only [Function.comp_apply]
    by_cases hji : j = i
    · rw [hji, if_neg hout, if_pos rfl, if_pos (by simp)]
    -- another block is not changed: it has data, or its number is another one
    · have hiff : j ∈ is ++ [i] ↔ j ∈ is := by simp [hji]
      rw [if_neg, if_congr hiff rfl rfl]
      intro he
      exact hji (nth_inj hlen hw (by omega) (by omega) (congrArg Package.num he))

/-- **A block ahead of those that have come.** -/
theorem Partly.ahead (h : Partly a len g size is n b) (W : Wild) (ses : UInt64)
    (hlen : 0 < len.toNat) (hl : ∀ i, (g i).length = len.toNat)
    (hw : a.toNat + size * len.toNat < 2 ^ 64) (hpos : 0 < n) (hlt : ∀ j ∈ is, j < n) {i : ℕ}
    (hi : n ≤ i) (hfit : i < size) :
    ∃ b', Stores W b [⟨ses, nth a len i, g i⟩] b' ∧ Partly a len g size (is ++ [i]) (i + 1) b' := by
  obtain ⟨n, rfl⟩ : ∃ m, n = m + 1 := ⟨n - 1, by omega⟩
  obtain ⟨k, rfl⟩ : ∃ k, i = n + (k + 1) := ⟨i - n - 1, by omega⟩
  have hsize := h.packages_size
  have hlast : b.packages.values.getLast? =
      some ⟨if n ∈ is then g n else [], nth a len n⟩ := by
    rw [h.values, arrived_succ, List.getLast?_concat]
  have hroom : b.packages.size < b.size.toNat := by
    rw [h.size]
    omega
  have hstretch : Stretch len b ⟨if n ∈ is then g n else [], nth a len n⟩ := by
    refine ⟨?_, hlast, fun num hnum => ?_, hroom⟩
    · show Ascending len (b.packages.values.map Package.num)
      rw [h.values]
      exact ascending_arrived hw (by omega)
    · obtain ⟨it, hit⟩ := OrdMap.mem_keys.1 hnum
      exact List.mem_map.2 ⟨_, ((h.ok.keys num it).1 hit).mem, rfl⟩
  have hnum := nth_add a len n (k + 1)
  have hbehind : (nth a len n).toNat + (k + 1) * len.toNat < 2 ^ 64 := by
    have hle : (n + (k + 1)) * len.toNat ≤ size * len.toNat := Nat.mul_le_mul_right _ hfit.le
    rw [toNat_nth_lt hw (by omega)]
    rw [Nat.add_mul] at hle
    omega
  obtain ⟨m, hdone, hnone, hsame, hvalues⟩ := hstretch.ahead_fits hlen (Nat.succ_pos k) hbehind
    (hl (n + (k + 1))) (by rw [hsize, h.size]; omega) W
  dsimp only at hdone hnone hsame hvalues
  rw [hnum] at hdone hnone hsame hvalues
  have hfits : Fits len b (nth a len (n + (k + 1))) :=
    Or.inr (Or.inr (Or.inr (Or.inr ⟨_, hlast, k + 1, Nat.succ_pos k, by rw [hsize, h.size]; omega,
      hnum.symm⟩)))
  have hli := hl (n + (k + 1))
  have hkeep := (fits_call (W := W) hli hfits (h.ok.keeps hlen hli) m).2
  refine ⟨_, .cons m hdone hnone .nil, hkeep, by rw [hsame, h.size], ?_⟩
  have hiff : ∀ j < n + (k + 1), j ∈ is ↔ j ∈ is ++ [n + (k + 1)] := by
    intro j hj
    have hne : j ≠ n + (k + 1) := by omega
    simp [hne]
  have hn : n + (k + 1) = n + 1 + k := by omega
  have hnew := arrived_succ a len g (is ++ [n + (k + 1)]) (n + (k + 1))
  rw [if_pos (by simp), ← arrived_congr hiff] at hnew
  rw [hvalues, h.values, hnew, Nat.succ_sub_one, hn, arrived_add k hlt]

theorem foldr_max_snoc (is : List ℕ) (i : ℕ) : (is ++ [i]).foldr max 0 = max (is.foldr max 0) i := by
  induction is with
  | nil => simp
  | cons j is ih => simp [ih, max_assoc]

theorem le_foldr_max {i : ℕ} (hi : i ∈ is) : i ≤ is.foldr max 0 := by
  induction is with
  | nil => cases hi
  | cons j is ih =>
    rw [List.foldr_cons]
    rcases List.mem_cons.1 hi with rfl | hi
    · exact le_max_left _ _
    · exact le_trans (ih hi) (le_max_right _ _)

theorem foldr_max_lt (hpos : 0 < size) (hlt : ∀ i ∈ is, i < size) : is.foldr max 0 < size := by
  induction is with
  | nil => exact hpos
  | cons j is ih =>
    rw [List.foldr_cons]
    exact max_lt (hlt j List.mem_cons_self) (ih fun i hi => hlt i (List.mem_cons_of_mem _ hi))

theorem foldr_max_mem (is : List ℕ) : is.foldr max 0 ∈ 0 :: is := by
  induction is with
  | nil => exact List.mem_cons_self
  | cons j is ih =>
    rw [List.foldr_cons]
    rcases max_choice j (is.foldr max 0) with h | h
    · rw [h]
      simp
    · rw [h]
      rcases List.mem_cons.1 ih with h0 | hmem
      · rw [h0]
        exact List.mem_cons_self
      · exact List.mem_cons_of_mem _ (List.mem_cons_of_mem _ hmem)

/-- The keys are the numbers of the missing packages. -/
theorem KeysMatch.mem_keys (h : KeysMatch b) {k : UInt64} :
    k ∈ b.set.keys ↔ (⟨[], k⟩ : Package) ∈ b.packages.values := by
  rw [OrdMap.mem_keys]
  constructor
  · rintro ⟨it, hit⟩
    exact ((h k it).1 hit).mem
  · intro hmem
    obtain ⟨it, hd⟩ := NodeList.exists_designates hmem
    exact ⟨it, (h k it).2 hd⟩

/-- **Packets in any order.** The first of them is the beginning of the stream, the others are ahead
of it, none comes twice, there is room for all up to the last of them, and the numbers do not wrap
around up to the end of the buffer. Then the buffer holds the blocks that have come, each in its place,
and asks for those between them. -/
theorem reassembled (W : Wild) (ses : UInt64) {a maxData len : UInt64} (hlen : 0 < len.toNat)
    {g : ℕ → List UInt8} (hl : ∀ i, (g i).length = len.toNat)
    (hw : a.toNat + (maxData / len).toNat * len.toNat < 2 ^ 64) {is : List ℕ} (hnd : is.Nodup)
    (his : ∀ i ∈ is, 0 < i ∧ i < (maxData / len).toNat) :
    ∃ b, Stores W (Buffer.init maxData) ((0 :: is).map fun i => ⟨ses, nth a len i, g i⟩) b ∧
      b.packages.values = arrived a len g (0 :: is) (is.foldr max 0 + 1) ∧
      ∀ k, k ∈ b.set.keys ↔ ∃ i < is.foldr max 0, i ∉ 0 :: is ∧ k = nth a len i := by
  have key : ∃ b, Stores W (Buffer.init maxData) ((0 :: is).map fun i => ⟨ses, nth a len i, g i⟩) b ∧
      Partly a len g (maxData / len).toNat (0 :: is) (is.foldr max 0 + 1) b := by
    induction is using List.reverseRecOn with
    | nil => exact partly_first W ses a maxData hlen (hl 0)
    | append_singleton is i ih =>
      have hout : i ∉ is := (List.nodup_concat is i).1 (by simpa using hnd) |>.1
      obtain ⟨b, hst, hb⟩ := ih hnd.of_append_left fun j hj =>
        his j (List.mem_append_left _ hj)
      have hi := his i (List.mem_append_right _ (List.mem_singleton_self i))
      have hlt : is.foldr max 0 < (maxData / len).toNat := foldr_max_lt (by omega) fun j hj =>
        (his j (List.mem_append_left _ hj)).2
      have hout' : i ∉ 0 :: is := List.not_mem_cons_of_ne_of_not_mem hi.1.ne' hout
      have happ : (0 :: (is ++ [i])).map (fun i => (⟨ses, nth a len i, g i⟩ : Datagram)) =
          (0 :: is).map (fun i => ⟨ses, nth a len i, g i⟩) ++ [⟨ses, nth a len i, g i⟩] := by
        rw [← List.cons_append, List.map_append]
        rfl
      rw [happ, foldr_max_snoc]
      by_cases hle : i ≤ is.foldr max 0
      · obtain ⟨b', hst', hb'⟩ := hb.fill W ses hlen hl hw (by omega) (by omega) hout'
        rw [max_eq_left hle]
        exact ⟨b', hst.append hst', hb'⟩
      · have hall : ∀ j ∈ 0 :: is, j < is.foldr max 0 + 1 := by
          intro j hj
          rcases List.mem_cons.1 hj with rfl | hj
          · exact Nat.succ_pos _
          · exact Nat.lt_succ_of_le (le_foldr_max hj)
        obtain ⟨b', hst', hb'⟩ := hb.ahead W ses hlen hl hw (Nat.succ_pos _) hall (by omega) hi.2
        rw [max_eq_right (by omega)]
        exact ⟨b', hst.append hst', hb'⟩
  obtain ⟨b, hst, hb⟩ := key
  refine ⟨b, hst, hb.values, fun k => ?_⟩
  rw [hb.ok.keys.mem_keys, hb.values]
  unfold arrived
  simp only [List.mem_map, List.mem_range, Package.mk.injEq]
  constructor
  · rintro ⟨i, hi, hdata, rfl⟩
    have hout : i ∉ 0 :: is := fun hmem => by
      rw [if_pos hmem] at hdata
      exact ne_nil_of_length hlen (hl i) hdata
    -- the last of them has come
    have hne : i ≠ is.foldr max 0 := fun he => hout (he ▸ foldr_max_mem is)
    exact ⟨i, by omega, hout, rfl⟩
  · rintro ⟨i, hi, hout, rfl⟩
    exact ⟨i, by omega, if_neg hout, rfl⟩

/-- Packets 0, 3 and 1 of a stream of packets of two bytes that begins at 4. -/
theorem reassembled_three : ∃ b, Stores ⟨fun _ _ => 0, fun _ _ => 0⟩ (Buffer.init 8)
    [⟨7, 4, [1, 2]⟩, ⟨7, 10, [1, 2]⟩, ⟨7, 6, [1, 2]⟩] b ∧
      b.packages.values = [⟨[1, 2], 4⟩, ⟨[1, 2], 6⟩, ⟨[], 8⟩, ⟨[1, 2], 10⟩] := by
  have hlen : 0 < (2 : UInt64).toNat := by decide
  obtain ⟨b, hst, hv, -⟩ := reassembled (a := 4) ⟨fun _ _ => 0, fun _ _ => 0⟩ 7 hlen
    (g := fun _ => [1, 2]) (fun _ => rfl) (by decide : (4 : UInt64).toNat +
      ((8 : UInt64) / 2).toNat * (2 : UInt64).toNat < 2 ^ 64) (by decide : [3, 1].Nodup) (by decide)
  exact ⟨b, hst, hv⟩

end Order

end SikMimuw.Receiver
