import SikMimuw.Lib.Run
import SikMimuw.Lib.Progression
import SikMimuw.Model.Buffor

/-!
# The buffer between calls

`BufOk len b` is the invariant of a buffer used with one payload length: its numbers are
a progression of step `len`, no more than fit, and the keys of `set` are exactly the
numbers of the packages without data, each mapped to its package (`KeysMatch`).

* `enter_case`, `pass_case`: all that `add_to_buffor` can do before its loop, and in one pass of it.
* `Keyed`: what is left of that when keys outlive their packages.
* `BufOk.fill`, `BufOk.first`, `BufOk.append`, `BufOk.appendDummy`, `BufOk.pop` and
  `reset_ok`: each of the places that change the buffer keeps `BufOk`, eviction apart.
-/

namespace SikMimuw.Receiver

variable {W : Wild} {len num : UInt64} {data : List UInt8} {b b' : Buffer} {c : Call}

/-- The numbers of the packages, in list order. -/
def Buffer.nums (b : Buffer) : List UInt64 := b.packages.values.map Package.num

/-- **The keys of `set` are the numbers of the packages without data**, and a key's
iterator designates that very package. -/
def KeysMatch (b : Buffer) : Prop :=
  ∀ k it, (k, it) ∈ b.set.entries ↔ b.packages.Designates it ⟨[], k⟩

/-- **The invariant** of a buffer used with payloads of length `len`. -/
structure BufOk (len : UInt64) (b : Buffer) : Prop where
  prog : Progression len b.nums
  size_eq : b.nums ≠ [] → b.size = b.maxData / len
  bound : b.nums.length ≤ max 1 b.size.toNat
  keys : KeysMatch b

/-- All that `add_to_buffor` can do before its loop. -/
inductive EnterCase (b : Buffer) (num : UInt64) (data : List UInt8) : Call → Prop
  | fill {it : ℕ} (hit : (num, it) ∈ b.set.entries) :
      EnterCase b num data ⟨b.fill it num data, [], true⟩
  | first (hkey : b.set.find? num = none) (hnil : b.packages.values = []) :
      EnterCase b num data
        ⟨{ b with size := b.maxData / UInt64.ofNat data.length }.append num data, [], true⟩
  | loop (hkey : b.set.find? num = none) (hne : b.packages.values ≠ []) :
      EnterCase b num data ⟨b, [], false⟩

/-- **The call up to its loop.** -/
theorem enter_case (b : Buffer) (num : UInt64) (data : List UInt8) :
    EnterCase b num data (b.enter num data) := by
  unfold Buffer.enter
  split
  · rename_i it hit
    exact .fill (OrdMap.find?_eq_some.1 hit)
  · rename_i hkey
    split
    · exact .first hkey ‹_›
    · exact .loop hkey ‹_›

/-- All that one pass of the loop can do to a call that has not returned. -/
inductive PassCase (W : Wild) (num : UInt64) (data : List UInt8) (c : Call) : Call → Prop
  | stop (h : c.buf.size.toNat ≤ c.buf.packages.size ∨ c.buf.packages.values = [] ∨
        ∃ front ∈ c.buf.packages.values.head?, num < front.num) :
      PassCase W num data c { c with done := true }
  | append {front back : Package} (hf : c.buf.packages.values.head? = some front)
      (hb : c.buf.packages.values.getLast? = some back)
      (hroom : c.buf.packages.size < c.buf.size.toNat) (hge : front.num ≤ num)
      (hnext : back.num + UInt64.ofNat data.length = num) :
      PassCase W num data c { c with buf := c.buf.append num data, done := true }
  | dummy {front back : Package} (hf : c.buf.packages.values.head? = some front)
      (hb : c.buf.packages.values.getLast? = some back)
      (hroom : c.buf.packages.size + 1 < c.buf.size.toNat) (hge : front.num ≤ num)
      (hgap : back.num + UInt64.ofNat data.length ≠ num) :
      PassCase W num data c
        { c with buf := c.buf.appendDummy (back.num + UInt64.ofNat data.length) }
  | evict {front back : Package} (hf : c.buf.packages.values.head? = some front)
      (hb : c.buf.packages.values.getLast? = some back)
      (hfull : c.buf.packages.size + 1 = c.buf.size.toNat) (hge : front.num ≤ num)
      (hgap : back.num + UInt64.ofNat data.length ≠ num) {e : Eviction}
      (he : e = (c.buf.appendDummy (back.num + UInt64.ofNat data.length)).evict W front.num
        (back.num + UInt64.ofNat data.length) num (UInt64.ofNat data.length)) :
      PassCase W num data c { c with buf := e.after, evictions := c.evictions ++ [e] }

theorem size_appendDummy (b : Buffer) (num : UInt64) :
    (b.appendDummy num).packages.size = b.packages.size + 1 := NodeList.size_pushBack

/-- **One pass of the loop.** -/
theorem pass_case (W : Wild) (num : UInt64) (data : List UInt8) {c : Call} (hd : c.done = false) :
    PassCase W num data c (c.pass W num data) := by
  unfold Call.pass
  simp only
  split
  · rename_i h
    rw [hd] at h
    exact .stop (Or.inl (by simpa using h))
  -- the loop condition holds
  rename_i h
  have hroom : c.buf.packages.size < c.buf.size.toNat := by simpa [hd] using h
  clear h
  split
  · rename_i front back hf hb
    split
    · rename_i hlt
      exact .stop (Or.inr (Or.inr ⟨front, by simp [hf], hlt⟩))
    rename_i hge
    -- the packet is not older than the front
    have hge : front.num ≤ num := not_lt.1 hge
    split
    · rename_i hnext
      exact .append hf hb hroom hge hnext
    rename_i hgap
    split
    · rename_i hfull
      rw [size_appendDummy] at hfull
      exact .evict hf hb hfull hge hgap rfl
    · rename_i hfull
      rw [size_appendDummy, Buffer.appendDummy_size] at hfull
      exact .dummy hf hb (by omega) hge hgap
  · rename_i h
    refine .stop (Or.inr (Or.inl ?_))
    cases hv : c.buf.packages.values with
    | nil => rfl
    | cons p ps =>
      exact (h p _ (by rw [hv]; rfl) (by rw [hv]; exact List.getLast?_cons)).elim

theorem addToBuffor_succ (W : Wild) (b : Buffer) (num : UInt64) (data : List UInt8) (n : ℕ) :
    addToBuffor W b num data (n + 1) = (addToBuffor W b num data n).pass W num data :=
  Function.iterate_succ_apply' _ _ _

/-- After the return nothing happens. -/
theorem addToBuffor_of_done {m n : ℕ} (hd : (addToBuffor W b num data m).done = true) (h : m ≤ n) :
    addToBuffor W b num data n = addToBuffor W b num data m := by
  obtain ⟨k, rfl⟩ := Nat.exists_eq_add_of_le h
  unfold addToBuffor at hd ⊢
  rw [Nat.add_comm, Function.iterate_add_apply]
  exact iterate_pass_done W num data hd k

theorem evictions_prefix_pass (W : Wild) (num : UInt64) (data : List UInt8) (c : Call) :
    c.evictions <+: (c.pass W num data).evictions := by
  cases hd : c.done with
  | true => simp [Call.pass_done W num data hd]
  | false =>
    have hc := pass_case W num data hd
    generalize c.pass W num data = c' at hc
    cases hc with
    | stop => exact List.prefix_rfl
    | append => exact List.prefix_rfl
    | dummy => exact List.prefix_rfl
    | evict => exact List.prefix_append _ _

theorem evictions_prefix_add (W : Wild) (b : Buffer) (num : UInt64) (data : List UInt8) (n k : ℕ) :
    (addToBuffor W b num data n).evictions <+: (addToBuffor W b num data (n + k)).evictions := by
  induction k with
  | zero => exact List.prefix_rfl
  | succ k ih =>
    apply ih.trans
    rw [← Nat.add_assoc, addToBuffor_succ]
    exact evictions_prefix_pass W num data _

/-- A call that has returned without an eviction has none at any time. -/
theorem no_evictions {n : ℕ} (hd : (addToBuffor W b num data n).done = true)
    (he : (addToBuffor W b num data n).evictions = []) (m : ℕ) :
    (addToBuffor W b num data m).evictions = [] := by
  rcases Nat.le_total m n with hmn | hmn
  · obtain ⟨k, rfl⟩ := Nat.exists_eq_add_of_le hmn
    have hp := evictions_prefix_add W b num data m k
    rw [he] at hp
    exact List.prefix_nil.1 hp
  · rw [addToBuffor_of_done hd hmn, he]

/-- A call that fills a hole returns before its loop. -/
theorem addToBuffor_key {it : ℕ} (hkey : b.set.find? num = some it) :
    addToBuffor W b num data 0 = ⟨b.fill it num data, [], true⟩ := by
  unfold addToBuffor Buffer.enter
  simp [hkey]

/-- So does a call on an empty buffer. -/
theorem addToBuffor_nil (hkey : b.set.find? num = none) (hnil : b.packages.values = []) :
    addToBuffor W b num data 0 =
      ⟨{ b with size := b.maxData / UInt64.ofNat data.length }.append num data, [], true⟩ := by
  unfold addToBuffor Buffer.enter
  simp [hkey, hnil]

/-- Any other call comes to the loop. -/
theorem addToBuffor_cons (hkey : b.set.find? num = none) (hne : b.packages.values ≠ []) :
    addToBuffor W b num data 0 = ⟨b, [], false⟩ := by
  unfold addToBuffor Buffer.enter
  simp [hkey, hne]

/-- If the list is full, or the packet is older than the front, the call returns there. -/
theorem addToBuffor_at_once (hkey : b.set.find? num = none) (hne : b.packages.values ≠ [])
    (h : b.size.toNat ≤ b.packages.size ∨ ∃ front ∈ b.packages.values.head?, num < front.num) :
    addToBuffor W b num data 1 = ⟨b, [], true⟩ := by
  rw [addToBuffor_succ, addToBuffor_cons hkey hne]
  have hc := pass_case (c := ⟨b, [], false⟩) W num data rfl
  generalize Call.pass W num data ⟨b, [], false⟩ = c' at hc
  have hold : ∀ f : Package, b.packages.values.head? = some f → b.packages.size < b.size.toNat →
      ¬ f.num ≤ num := by
    intro f hf hroom hge
    rcases h with hfull | ⟨front, hfront, hlt⟩
    · omega
    · rw [hf, Option.mem_some_iff] at hfront
      subst hfront
      exact absurd hlt (not_lt.2 hge)
  cases hc with
  | stop => rfl
  | append hf _ hroom hge => exact absurd hge (hold _ hf hroom)
  | dummy hf _ hroom hge => exact absurd hge (hold _ hf (Nat.lt_of_succ_lt hroom))
  | evict hf _ hfull hge => exact absurd hge (hold _ hf (Nat.lt_of_succ_le (le_of_eq hfull)))

theorem add_mul_succ (a len : UInt64) (k : ℕ) :
    a + UInt64.ofNat (k + 1) * len = a + len + UInt64.ofNat k * len := by
  rw [UInt64.ofNat_add, UInt64.add_mul, UInt64.add_comm (UInt64.ofNat k * len), ← UInt64.add_assoc]
  congr 2
  exact UInt64.one_mul len

theorem add_succ_mul (a len : UInt64) (k : ℕ) :
    a + UInt64.ofNat (k + 1) * len = a + UInt64.ofNat k * len + len := by
  rw [add_mul_succ, UInt64.add_assoc, UInt64.add_comm len, ← UInt64.add_assoc]

@[simp] theorem length_nums (b : Buffer) : b.nums.length = b.packages.size := by
  simp [Buffer.nums]

theorem nums_ne_nil : b.nums ≠ [] ↔ b.packages.values ≠ [] := by simp [Buffer.nums]

theorem nums_append (b : Buffer) (num : UInt64) (data : List UInt8) :
    (b.append num data).nums = b.nums ++ [num] := by
  simp [Buffer.nums, Buffer.append]

theorem nums_appendDummy (b : Buffer) (num : UInt64) :
    (b.appendDummy num).nums = b.nums ++ [num] := by
  simp [Buffer.nums]

theorem nums_fill (b : Buffer) (it : ℕ) (num : UInt64) (data : List UInt8) :
    (b.fill it num data).nums = b.nums := NodeList.values_modify fun _ => rfl

theorem nums_getLast {back : Package} (hb : b.packages.values.getLast? = some back) :
    b.nums.getLast? = some back.num := by
  rw [Buffer.nums, List.getLast?_map, hb]; rfl

theorem ne_nil_of_getLast {back : Package} (hb : b.packages.values.getLast? = some back) :
    b.nums ≠ [] := by
  intro hn
  have := nums_getLast hb
  simp [hn] at this

/-- A buffer with room for another package spans less than `2 ^ 64`. -/
theorem BufOk.span (h : BufOk len b) (hne : b.nums ≠ []) {n : ℕ} (hn : n ≤ b.size.toNat) :
    n * len.toNat < 2 ^ 64 := by
  have h1 := h.size_eq hne
  have h2 : b.size.toNat * len.toNat ≤ b.maxData.toNat := by
    rw [h1, UInt64.toNat_div]; exact Nat.div_mul_le_self _ _
  have h3 := b.maxData.toNat_lt
  have h4 : n * len.toNat ≤ b.size.toNat * len.toNat := Nat.mul_le_mul_right _ hn
  omega

/-- **The numbers are distinct.** -/
theorem BufOk.nodup (h : BufOk len b) (hlen : 0 < len.toNat) : b.nums.Nodup := by
  by_cases hne : b.nums = []
  · rw [hne]; exact List.nodup_nil
  apply h.prog.nodup hlen
  have hb := h.bound
  rcases Nat.le_total b.nums.length 1 with h1 | h1
  · have : b.nums.length - 1 = 0 := by omega
    rw [this, Nat.zero_mul]; norm_num
  · exact h.span hne (by omega)

/-- The number after the last one is new, as long as there is room for it. -/
theorem BufOk.fresh_num (h : BufOk len b) (hlen : 0 < len.toNat) {back : Package}
    (hb : b.packages.values.getLast? = some back) (hroom : b.packages.size < b.size.toNat) :
    back.num + len ∉ b.nums := by
  -- with the new number the list still spans less than `2 ^ 64`
  have hspan := h.span (ne_nil_of_getLast hb) (n := b.nums.length) (by rw [length_nums]; omega)
  have hnd := h.prog.nodup_snoc hlen (nums_getLast hb) hspan
  intro hm
  exact (List.nodup_append.1 hnd).2.2 _ hm _ (List.mem_singleton_self _) rfl

/-- A package with data has no key. -/
theorem KeysMatch.append (h : KeysMatch b) (hdata : data ≠ []) : KeysMatch (b.append num data) := by
  intro k it
  show (k, it) ∈ b.set.entries ↔ (b.packages.pushBack _).Designates it _
  rw [h, NodeList.designates_pushBack]
  constructor
  · exact Or.inl
  · rintro (h' | ⟨-, he⟩)
    · exact h'
    · simp only [Package.mk.injEq] at he
      exact absurd he.1.symm hdata

/-- A package with data at the end. -/
theorem BufOk.append (h : BufOk len b) {back : Package}
    (hb : b.packages.values.getLast? = some back) (hroom : b.packages.size < b.size.toNat)
    (hdata : data ≠ []) (hnext : back.num + len = num) : BufOk len (b.append num data) := by
  subst hnext
  refine ⟨?_, fun _ => h.size_eq (ne_nil_of_getLast hb), ?_, ?_⟩
  · rw [nums_append]; exact h.prog.snoc (nums_getLast hb)
  · rw [nums_append, List.length_append, length_nums]
    show b.packages.size + 1 ≤ max 1 b.size.toNat
    omega
  · exact h.keys.append hdata

/-- A package without data at the end, with its key. -/
theorem BufOk.appendDummy (h : BufOk len b) (hlen : 0 < len.toNat) {back : Package}
    (hb : b.packages.values.getLast? = some back) (hroom : b.packages.size < b.size.toNat) :
    BufOk len (b.appendDummy (back.num + len)) := by
  refine ⟨?_, fun _ => h.size_eq (ne_nil_of_getLast hb), ?_, ?_⟩
  · rw [nums_appendDummy]; exact h.prog.snoc (nums_getLast hb)
  · rw [nums_appendDummy, List.length_append, length_nums]
    show b.packages.size + 1 ≤ max 1 b.size.toNat
    omega
  · intro k it
    show (k, it) ∈ (b.set.insert _ _).entries ↔ (b.packages.pushBack _).Designates it _
    rw [OrdMap.mem_insert, NodeList.designates_pushBack, h.keys]
    constructor
    · rintro (⟨rfl, rfl⟩ | ⟨-, h'⟩)
      · exact Or.inr ⟨rfl, rfl⟩
      · exact Or.inl h'
    · rintro (h' | ⟨rfl, he⟩)
      -- an old entry: its key is in the list, so it is not the new one
      · refine Or.inr ⟨?_, h'⟩
        rintro rfl
        exact h.fresh_num hlen hb hroom (List.mem_map.2 ⟨_, h'.mem, rfl⟩)
      · simp only [Package.mk.injEq, true_and] at he
        exact Or.inl ⟨he, rfl⟩

/-- A missing package gets its data, and its key goes. -/
theorem BufOk.fill (h : BufOk len b) {it : ℕ} (hit : (num, it) ∈ b.set.entries) (hdata : data ≠ []) :
    BufOk len (b.fill it num data) := by
  refine ⟨?_, ?_, ?_, ?_⟩
  · rw [nums_fill]; exact h.prog
  · rw [nums_fill]; exact h.size_eq
  · rw [nums_fill]; exact h.bound
  · intro k it'
    show (k, it') ∈ (b.set.erase num).entries ↔ (b.packages.modify it _).Designates it' _
    rw [OrdMap.mem_erase, NodeList.designates_modify, h.keys]
    by_cases hi : it' = it
    · subst hi
      rw [if_pos rfl]
      constructor
      · rintro ⟨hne, h'⟩
        have := h'.unique ((h.keys _ _).1 hit)
        simp only [Package.mk.injEq, true_and] at this
        exact absurd this hne
      · rintro ⟨p, -, he⟩
        simp only [Package.mk.injEq] at he
        exact absurd he.1 hdata
    -- another node: its key is not `num`, which designates `it`
    · rw [if_neg hi]
      refine ⟨fun h' => h'.2, fun h' => ⟨?_, h'⟩⟩
      rintro rfl
      exact hi (OrdMap.mem_unique ((h.keys _ _).2 h') hit)

/-- The first package of an empty buffer. -/
theorem BufOk.first (h : BufOk len b) (hne : b.packages.values = []) (hdata : data ≠ []) :
    BufOk len ({ b with size := b.maxData / len }.append num data) := by
  have hnums : b.nums = [] := by simp [Buffer.nums, hne]
  have hv : ({ b with size := b.maxData / len }.append num data).nums = [num] := by
    rw [nums_append]; show b.nums ++ [num] = [num]; rw [hnums]; rfl
  refine ⟨?_, fun _ => rfl, ?_, ?_⟩
  · rw [hv]; exact Progression.singleton num
  · rw [hv]; exact le_max_left _ _
  · exact KeysMatch.append (b := { b with size := b.maxData / len }) h.keys hdata

/-- `reset` gives an empty buffer. -/
theorem reset_ok (len : UInt64) (b : Buffer) : BufOk len b.reset :=
  ⟨Progression.nil, fun h => absurd rfl h, Nat.zero_le _, fun k it => by
    simp [Buffer.reset]⟩

theorem init_ok (len maxData : UInt64) : BufOk len (Buffer.init maxData) :=
  ⟨Progression.nil, fun h => absurd rfl h, Nat.zero_le _, fun k it => by
    simp [Buffer.init]⟩

theorem pop_eq_some {p : Package} : b.pop = some (p, b') ↔
    b.packages.values.head? = some p ∧ b' = { b with packages := b.packages.popFront } := by
  simp [Buffer.pop, eq_comm]

/-- A package with data is taken from the front. -/
theorem BufOk.pop (h : BufOk len b) {p : Package} (hp : b.pop = some (p, b')) (hdata : p.data ≠ []) :
    BufOk len b' := by
  obtain ⟨hq, rfl⟩ := pop_eq_some.1 hp
  obtain ⟨n, ns, hn, rfl⟩ : ∃ n ns, b.packages.nodes = n :: ns ∧ n.2 = p := by
    cases hns : b.packages.nodes with
    | nil => simp [NodeList.values, hns] at hq
    | cons n ns => exact ⟨n, ns, rfl, by simpa [NodeList.values, hns] using hq⟩
  have hnums : ({ b with packages := b.packages.popFront } : Buffer).nums = b.nums.tail := by
    simp [Buffer.nums, List.map_tail]
  refine ⟨?_, ?_, ?_, ?_⟩
  · rw [hnums]; exact h.prog.tail
  · intro hne
    rw [hnums] at hne
    exact h.size_eq fun h0 => hne (by rw [h0]; rfl)
  · rw [hnums, List.length_tail]
    exact le_trans (Nat.sub_le _ _) h.bound
  · intro k it
    show (k, it) ∈ b.set.entries ↔ b.packages.popFront.Designates it _
    rw [h.keys, NodeList.designates_popFront hn]
    -- the front has data, so no key designates it
    refine ⟨fun h' => ⟨h', ?_⟩, fun h' => h'.1⟩
    rintro rfl
    have hd : b.packages.Designates n.1 n.2 := by
      show n ∈ b.packages.nodes
      rw [hn]; exact List.mem_cons_self
    exact hdata (by rw [← h'.unique hd])

/-! ### Stale iterators -/

/-- **The iterator of a key** designates a package of that number, or no package any more. -/
structure Keyed (b : Buffer) : Prop where
  num : ∀ k it p, (k, it) ∈ b.set.entries → b.packages.Designates it p → p.num = k
  old : ∀ k it, (k, it) ∈ b.set.entries → it < b.packages.fresh

theorem init_keyed (maxData : UInt64) : Keyed (Buffer.init maxData) :=
  ⟨fun _ _ _ h => (by cases h), fun _ _ h => (by cases h)⟩

theorem reset_keyed (b : Buffer) : Keyed b.reset := ⟨fun _ _ _ h => (by cases h), fun _ _ h => (by cases h)⟩

theorem Keyed.append (h : Keyed b) (num : UInt64) (data : List UInt8) : Keyed (b.append num data) := by
  constructor
  · intro k it p hk hd
    change (k, it) ∈ b.set.entries at hk
    rcases NodeList.designates_pushBack.1 hd with hd | ⟨rfl, -⟩
    · exact h.num _ _ _ hk hd
    -- the new node has an address that no key has
    · exact absurd (h.old _ _ hk) (lt_irrefl _)
  · intro k it hk
    exact Nat.lt_succ_of_lt (h.old _ _ hk)

theorem Keyed.appendDummy (h : Keyed b) (num : UInt64) : Keyed (b.appendDummy num) := by
  constructor
  · intro k it p hk hd
    rcases OrdMap.mem_insert.1 hk with ⟨rfl, rfl⟩ | ⟨-, hk⟩ <;>
      rcases NodeList.designates_pushBack.1 hd with hd | ⟨hit, rfl⟩
    · exact absurd hd.lt_fresh (lt_irrefl _)
    · rfl
    · exact h.num _ _ _ hk hd
    · exact absurd (h.old _ _ hk) (by omega)
  · intro k it hk
    rcases OrdMap.mem_insert.1 hk with ⟨rfl, rfl⟩ | ⟨-, hk⟩
    · exact Nat.lt_succ_self _
    · exact Nat.lt_succ_of_lt (h.old _ _ hk)

theorem Keyed.fill (h : Keyed b) (it : ℕ) (num : UInt64) (data : List UInt8) :
    Keyed (b.fill it num data) := by
  constructor
  · intro k it' p hk hd
    have hk' := (OrdMap.mem_erase.1 hk).2
    change (b.packages.modify it _).Designates it' p at hd
    rw [NodeList.designates_modify] at hd
    split at hd
    · rename_i hit
      obtain ⟨q, hq, rfl⟩ := hd
      subst hit
      show q.num = k
      exact h.num _ _ _ hk' hq
    · exact h.num _ _ _ hk' hd
  · intro k it' hk
    exact h.old _ _ (OrdMap.mem_erase.1 hk).2

/-- The front goes, and any keys with it. -/
theorem Keyed.popFront (h : Keyed b) {set : OrdMap UInt64 ℕ}
    (hset : ∀ e ∈ set.entries, e ∈ b.set.entries) :
    Keyed { b with packages := b.packages.popFront, set := set } :=
  ⟨fun _ _ _ hk hd => h.num _ _ _ (hset _ hk) (List.mem_of_mem_tail hd),
    fun _ _ hk => h.old _ _ (hset _ hk)⟩

theorem mem_of_mem_eraseBelow {κ ν : Type*} [LinearOrder κ] {m : OrdMap κ ν} {k : κ} :
    ∀ e ∈ (m.eraseBelow k).entries, e ∈ m.entries := fun _ he => (List.mem_filter.1 he).1

theorem Keyed.enter (h : Keyed b) : Keyed (b.enter num data).buf := by
  have hc := enter_case b num data
  generalize b.enter num data = c at hc
  cases hc with
  | fill => exact h.fill _ _ _
  | first =>
    have h' : Keyed { b with size := b.maxData / UInt64.ofNat data.length } := ⟨h.num, h.old⟩
    exact h'.append num data
  | loop => exact h

theorem Keyed.pass (h : Keyed c.buf) (hd : c.done = false) : Keyed (c.pass W num data).buf := by
  have hc := pass_case W num data hd
  generalize Call.pass W num data c = c' at hc
  cases hc with
  | stop => exact h
  | append => exact h.append num data
  | dummy => exact h.appendDummy _
  | evict _ _ _ _ _ he =>
    subst he
    exact (h.appendDummy _).popFront mem_of_mem_eraseBelow

theorem ofNat_length (hl : data.length = len.toNat) : UInt64.ofNat data.length = len := by
  rw [hl, UInt64.ofNat_toNat]

theorem ne_nil_of_length (hlen : 0 < len.toNat) (hl : data.length = len.toNat) : data ≠ [] := by
  rintro rfl
  simp at hl; omega

end SikMimuw.Receiver
