import SikMimuw.Proof.Loop

/-!
# Eviction in `add_to_buffor`

`Fits len b num` is the condition under which `add_to_buffor` does not reach lines 34-40:
the packet fills a hole, or the buffer is empty or full, or the packet is older than the
front, or it takes one of the next free places.

* `fits_call`: then the call evicts nothing, and keeps what its other changes keep.
* `evicts_out_of_list`: otherwise line 37 moves its iterator out of the list, in the
  first eviction of the call or in the second.
* `fitting_run_ok`: so, along a run whose calls all fit, the keys of `set` are the
  missing packages, and a call keeps that (`CallOk`) exactly if it fits.
-/

namespace SikMimuw.Receiver

open Lts

variable {W : Wild} {len num : UInt64} {data : List UInt8} {b b' : Buffer} {c : Call}

/-- Every place that line 37 visits, from `begin()` back by `distance`, is in the list. -/
def Eviction.InList (e : Eviction) : Prop :=
  ∀ k : ℕ, k ≤ e.distance.toNat → 0 ≤ -(k : ℤ) ∧ -(k : ℤ) < e.before.packages.size

/-- The eviction takes the key of the front package out of `set`, and no other. -/
def Eviction.ErasesFront (e : Eviction) : Prop :=
  ∀ k it, (k, it) ∈ e.after.set.entries ↔
    (k, it) ∈ e.before.set.entries ∧ e.before.nums.head? ≠ some k

/-- **A correct call**: its evictions stay in the list and erase the front's key, and
when it returns the keys of `set` are the missing packages. -/
def CallOk (W : Wild) (b : Buffer) (num : UInt64) (data : List UInt8) : Prop :=
  ∀ n, (∀ e ∈ (addToBuffor W b num data n).evictions, e.InList ∧ e.ErasesFront) ∧
    ((addToBuffor W b num data n).done = true → KeysMatch (addToBuffor W b num data n).buf)

/-- What happens to the buffer. -/
inductive BufEvent
  | add (num : UInt64) (data : List UInt8)
  | print
  | reset

/-- A call of `add_to_buffor` that returns, a critical section of `printing_loop` that
pops, or a `reset`. -/
inductive BufStep (W : Wild) (len : UInt64) : Buffer → BufEvent → Buffer → Prop
  | add {b : Buffer} (num : UInt64) (data : List UInt8) (n : ℕ) (hl : data.length = len.toNat)
      (hd : (addToBuffor W b num data n).done = true) :
      BufStep W len b (.add num data) (addToBuffor W b num data n).buf
  | print {b b' : Buffer} {p : Package} (hp : b.pop = some (p, b')) :
      BufStep W len b .print (if p.data = [] then b'.reset else b')
  | reset {b : Buffer} : BufStep W len b .reset b.reset

/-- The places in `packages` that the loop can still reach without evicting. -/
def LoopFits (len : UInt64) (b : Buffer) (num : UInt64) : Prop :=
  b.size.toNat ≤ b.packages.size ∨ b.packages.values = [] ∨
    (∃ front ∈ b.packages.values.head?, num < front.num) ∨
    ∃ back ∈ b.packages.values.getLast?, ∃ k : ℕ, 1 ≤ k ∧ b.packages.size + k ≤ b.size.toNat ∧
      num = back.num + UInt64.ofNat k * len

/-- **The packet fits**: it fills a hole, the buffer is full or empty, the packet is older
than the front, or it takes one of the next `size - packages.size()` places. -/
def Fits (len : UInt64) (b : Buffer) (num : UInt64) : Prop :=
  (∃ it, (num, it) ∈ b.set.entries) ∨ LoopFits len b num

/-- A call of the run fits. -/
def BufEvent.Fits (len : UInt64) (b : Buffer) : BufEvent → Prop
  | .add num _ => Receiver.Fits len b num
  | _ => True

/-- If the loop goes on behind `back`, the packet that fits is further on. -/
theorem LoopFits.gap (hf : LoopFits len b num) {front back : Package}
    (hfr : b.packages.values.head? = some front) (hbk : b.packages.values.getLast? = some back)
    (hroom : b.packages.size < b.size.toNat) (hge : front.num ≤ num) (hgap : back.num + len ≠ num) :
    ∃ k : ℕ, 1 ≤ k ∧ b.packages.size + 1 + k ≤ b.size.toNat ∧
      num = back.num + len + UInt64.ofNat k * len := by
  rcases hf with h | h | ⟨f, hfm, hlt⟩ | ⟨bk, hbm, k, hk1, hk2, rfl⟩
  · omega
  · simp [h] at hfr
  · rw [hfr, Option.mem_some_iff] at hfm
    subst hfm
    exact absurd hlt (not_lt.2 hge)
  · rw [hbk, Option.mem_some_iff] at hbm
    subst hbm
    obtain ⟨j, rfl⟩ : ∃ j, k = j + 1 := ⟨k - 1, by omega⟩
    rw [add_mul_succ] at hgap ⊢
    rcases j with _ | j
    · simp at hgap
    · exact ⟨j + 1, by omega, by omega, rfl⟩

/-- What a call that fits must keep of the buffer, at each of the places that change it. -/
structure Keeps (I : Buffer → Prop) (len num : UInt64) (data : List UInt8) (b₀ : Buffer) : Prop where
  init : I b₀
  fill : ∀ it, (num, it) ∈ b₀.set.entries → I (b₀.fill it num data)
  first : b₀.packages.values = [] → I ({ b₀ with size := b₀.maxData / len }.append num data)
  append : ∀ b front back, I b → b.packages.values.head? = some front →
    b.packages.values.getLast? = some back → b.packages.size < b.size.toNat → front.num ≤ num →
    back.num + len = num → I (b.append num data)
  dummy : ∀ b front back k, I b → b.packages.values.head? = some front →
    b.packages.values.getLast? = some back → b.packages.size + 1 + k ≤ b.size.toNat →
    front.num ≤ num → 1 ≤ k → num = back.num + len + UInt64.ofNat k * len →
    I (b.appendDummy (back.num + len))

/-- **A call that fits**: it evicts nothing and keeps every `I` that its changes keep. -/
theorem fits_call {I : Buffer → Prop} (hl : data.length = len.toNat) (hf : Fits len b num)
    (hI : Keeps I len num data b) (n : ℕ) :
    (addToBuffor W b num data n).evictions = [] ∧ I (addToBuffor W b num data n).buf := by
  have hlen' := ofNat_length hl
  -- until the call returns, the place of `num` stays one of the free ones
  have key : ∀ n, (addToBuffor W b num data n).evictions = [] ∧
      I (addToBuffor W b num data n).buf ∧ ((addToBuffor W b num data n).done = true ∨
        LoopFits len (addToBuffor W b num data n).buf num) := by
    intro n
    induction n with
    | zero =>
      unfold addToBuffor Buffer.enter
      simp only [Function.iterate_zero_apply]
      split
      · rename_i it hit
        exact ⟨rfl, hI.fill it (OrdMap.find?_eq_some.1 hit), Or.inl rfl⟩
      · rename_i hnone
        split
        · rename_i hne
          rw [hlen']; exact ⟨rfl, hI.first hne, Or.inl rfl⟩
        · refine ⟨rfl, hI.init, Or.inr ?_⟩
          rcases hf with ⟨it, hit⟩ | hf
          · exact absurd hit (OrdMap.find?_eq_none.1 hnone it)
          · exact hf
    | succ n ih =>
      obtain ⟨he, hb, hn⟩ := ih
      rw [addToBuffor_succ]
      set c := addToBuffor W b num data n
      cases hd : c.done with
      | true => rw [Call.pass_done W num data hd]; exact ⟨he, hb, Or.inl hd⟩
      | false =>
        have hn := hn.resolve_left (by simp [hd])
        have hc := pass_case W num data hd
        generalize c.pass W num data = c' at hc
        cases hc with
        | stop => exact ⟨he, hb, Or.inl rfl⟩
        | append hfr hbk hroom hge hnext =>
          rw [hlen'] at hnext
          exact ⟨he, hI.append _ _ _ hb hfr hbk hroom hge hnext, Or.inl rfl⟩
        | @dummy front back hfr hbk hroom hge hgap =>
          rw [hlen'] at hgap ⊢
          -- the place of `num` is one nearer now
          obtain ⟨k, hk1, hk2, hk⟩ := hn.gap hfr hbk (by omega) hge hgap
          refine ⟨he, hI.dummy _ _ _ k hb hfr hbk hk2 hge hk1 hk,
            Or.inr (Or.inr (Or.inr (Or.inr ⟨⟨[], back.num + len⟩, ?_, k, hk1, ?_, hk⟩)))⟩
          · rw [Buffer.appendDummy_values, List.getLast?_append]; rfl
          · rw [size_appendDummy]; exact hk2
        | evict hfr hbk hfull hge hgap =>
          rw [hlen'] at hgap
          -- a list that the dummy fills has no place left for `num`
          obtain ⟨k, hk1, hk2, -⟩ := hn.gap hfr hbk (by omega) hge hgap
          omega
  exact ⟨(key n).1, (key n).2.1⟩

/-- The changes of a call that fits keep `BufOk`. -/
theorem BufOk.keeps (h : BufOk len b) (hlen : 0 < len.toNat) (hl : data.length = len.toNat) :
    Keeps (BufOk len) len num data b where
  init := h
  fill := fun _ hit => h.fill hit (ne_nil_of_length hlen hl)
  first := fun hne => h.first hne (ne_nil_of_length hlen hl)
  append := fun _ _ _ hb _ hbk hroom _ hnext =>
    hb.append hbk hroom (ne_nil_of_length hlen hl) hnext
  dummy := fun _ _ _ _ hb _ hbk hroom _ _ _ => hb.appendDummy hlen hbk (by omega)

/-- `distance` is zero only if the packet is less than `len` above the back. -/
theorem distance_eq_zero {size back : UInt64} (hsize : 2 ≤ size.toNat) (hlen : 0 < len.toNat)
    (hd : distance size back num len = 0) : (num - back).toNat < len.toNat := by
  have h1 : (size - 1).toNat = size.toNat - 1 := by
    rw [Word.toNat_sub']
    have : (1 : UInt64).toNat = 1 := rfl
    rw [this, if_pos (by omega)]
  unfold distance at hd
  split at hd
  · have hq : ((num - back) / len).toNat = 0 := by rw [hd]; rfl
    rw [UInt64.toNat_div, Nat.div_eq_zero_iff] at hq
    omega
  · have : (size - 1).toNat = 0 := by rw [hd]; rfl
    omega

/-- `num` has no place in the buffer: it is not the number of a missing package, the front is not
newer, and none of the free places is its. -/
structure Unfit (len : UInt64) (b : Buffer) (num : UInt64) (front back : Package) : Prop where
  key : b.set.find? num = none
  head : b.packages.values.head? = some front
  last : b.packages.values.getLast? = some back
  room : b.packages.size < b.size.toNat
  order : front.num ≤ num
  free : ∀ k : ℕ, 1 ≤ k → b.packages.size + k ≤ b.size.toNat →
    back.num + UInt64.ofNat k * len ≠ num

theorem unfit_of_not_fits (hf : ¬ Fits len b num) : ∃ front back, Unfit len b num front back := by
  have hloop : ¬ LoopFits len b num := fun h => hf (Or.inr h)
  cases entry_cases b num with
  | missing hkey => exact absurd (Or.inl ⟨_, OrdMap.find?_eq_some.1 hkey⟩) hf
  | first _ hnil => exact absurd (Or.inr (Or.inl hnil)) hloop
  | atOnce _ _ honce =>
    rcases honce with hfull | hold
    · exact absurd (Or.inl hfull) hloop
    · exact absurd (Or.inr (Or.inr (Or.inl hold))) hloop
  | @loop front back he hfr hge =>
    refine ⟨front, back, he.key, hfr, he.last, he.room, hge, fun k hk1 hk2 hnum => ?_⟩
    exact hloop (Or.inr (Or.inr (Or.inr ⟨back, he.last, k, hk1, hk2, hnum.symm⟩)))

/-- **A pass of a packet that is not next**: it pushes a dummy, and evicts if that fills
the list. -/
theorem pass_goes_on (W : Wild) (hl : data.length = len.toNat) (hd : c.done = false)
    {front back : Package} (hfr : c.buf.packages.values.head? = some front)
    (hbk : c.buf.packages.values.getLast? = some back)
    (hroom : c.buf.packages.size < c.buf.size.toNat) (hge : front.num ≤ num)
    (hgap : back.num + len ≠ num) : c.pass W num data =
      if c.buf.packages.size + 1 = c.buf.size.toNat then
        let e := (c.buf.appendDummy (back.num + len)).evict W front.num (back.num + len) num len
        { c with buf := e.after, evictions := c.evictions ++ [e] }
      else { c with buf := c.buf.appendDummy (back.num + len) } := by
  have hlen' := ofNat_length hl
  have hc := pass_case W num data hd
  generalize c.pass W num data = c' at hc
  cases hc with
  | stop hs =>
    rcases hs with hs | hs | ⟨f, hfm, hlt⟩
    · omega
    · simp [hs] at hfr
    · rw [hfr, Option.mem_some_iff] at hfm
      subst hfm
      exact absurd hlt (not_lt.2 hge)
  | append _ hb' _ _ hnext =>
    rw [hbk, Option.some.injEq] at hb'
    subst hb'
    exact absurd (hlen' ▸ hnext) hgap
  | dummy _ hb' hroom' _ _ =>
    rw [hbk, Option.some.injEq] at hb'
    subst hb'
    rw [hlen', if_neg (by omega)]
  | evict hf' hb' hfull _ _ he =>
    rw [hfr, Option.some.injEq] at hf'
    rw [hbk, Option.some.injEq] at hb'
    subst hf' hb'
    rw [if_pos hfull, he, hlen']

/-- The call has pushed `j` dummies behind the packages of `b`. -/
structure Pushed (b : Buffer) (len : UInt64) (front back : Package) (j : ℕ) (c : Call) : Prop where
  running : c.done = false
  ok : BufOk len c.buf
  size : c.buf.size = b.size
  length : c.buf.packages.size = b.packages.size + j
  front : c.buf.packages.values.head? = some front
  back : ∃ q, c.buf.packages.values.getLast? = some q ∧ q.num = back.num + UInt64.ofNat j * len

/-- The next number is not `num` as long as it has a free place. -/
theorem Unfit.gap {front back q : Package} (hu : Unfit len b num front back) {j : ℕ}
    (hj : b.packages.size + j < b.size.toNat) (hq : q.num = back.num + UInt64.ofNat j * len) :
    q.num + len ≠ num := by
  rw [hq, ← add_succ_mul]
  exact hu.free (j + 1) (by omega) (by omega)

/-- A call that does not fit pushes dummies as long as there is room. -/
theorem pushed (hlen : 0 < len.toNat) (hl : data.length = len.toNat) (h : BufOk len b)
    {front back : Package} (hu : Unfit len b num front back) :
    ∀ j, b.packages.size + j < b.size.toNat →
      Pushed b len front back j (addToBuffor W b num data j) := by
  intro j
  induction j with
  | zero =>
    intro _
    have hne : b.packages.values ≠ [] := by
      intro hn
      have := hu.head
      simp [hn] at this
    rw [addToBuffor_cons hu.key hne]
    exact ⟨rfl, h, rfl, rfl, hu.head, back, hu.last, by simp⟩
  | succ j ih =>
    intro hj
    obtain ⟨hd, hok, hsz, hln, hfr, q, hq, hqn⟩ := ih (by omega)
    have hroom : (addToBuffor W b num data j).buf.packages.size <
        (addToBuffor W b num data j).buf.size.toNat := by rw [hsz]; omega
    -- there is room, and the next place is not the packet's: one more dummy
    have hgap : q.num + len ≠ num := hu.gap (by omega) hqn
    rw [addToBuffor_succ, pass_goes_on W hl hd hfr hq hroom hu.order hgap,
      if_neg (by rw [hsz]; omega)]
    refine ⟨hd, hok.appendDummy hlen hq hroom, hsz, ?_, ?_, ⟨[], q.num + len⟩, ?_, ?_⟩
    · rw [size_appendDummy, hln, Nat.add_assoc]
    · rw [Buffer.appendDummy_values, List.head?_append, hfr]; rfl
    · rw [Buffer.appendDummy_values, List.getLast?_append]; rfl
    · rw [add_succ_mul, ← hqn]

/-- The arithmetic of two evictions in a row, on a list of `s` numbers from `F` to `B`. If the
packet `N` is less than `L` above `B`, it is not below the second number, and it is at
least `L` away from the next one after `B`. -/
theorem two_evictions {s F B N L : ℕ} (hs : 2 ≤ s) (hspan : s * L < 2 ^ 64) (hF : F < 2 ^ 64)
    (hN : N < 2 ^ 64) (hFN : F ≤ N) (hB : B = (F + (s - 1) * L) % 2 ^ 64)
    (hd : (if B ≤ N then N - B else 2 ^ 64 + N - B) < L) :
    (F + L) % 2 ^ 64 ≤ N ∧ (B + L) % 2 ^ 64 ≠ N ∧
      L ≤ if (B + L) % 2 ^ 64 ≤ N then N - (B + L) % 2 ^ 64 else 2 ^ 64 + N - (B + L) % 2 ^ 64 := by
  obtain ⟨m, rfl⟩ : ∃ m, s = m + 2 := ⟨s - 2, by omega⟩
  have h1 : (m + 2) * L = m * L + L + L := by ring
  have h2 : (m + 2 - 1) * L = m * L + L := by
    rw [show m + 2 - 1 = m + 1 by omega, Nat.succ_mul]
  rw [h1] at hspan
  rw [h2] at hB
  set P := m * L
  split at hd <;> split <;> omega

/-- The list after an eviction: its front is gone, and `back` is its last number. -/
structure Evicted (s : ℕ) (len front back : UInt64) (b : Buffer) : Prop where
  size : b.size.toNat = s
  length : b.packages.size + 1 = s
  prog : Progression len (front :: b.nums)
  last : b.packages.values.getLast? = some ⟨[], back⟩

/-- What the eviction behind a pushed dummy leaves. -/
theorem evicted (W : Wild) {front q : Package} (hok : BufOk len b)
    (hfr : b.packages.values.head? = some front) (hq : b.packages.values.getLast? = some q)
    (hfull : b.packages.size + 1 = b.size.toNat) :
    Evicted b.size.toNat len front.num (q.num + len)
      ((b.appendDummy (q.num + len)).evict W front.num (q.num + len) num len).after := by
  obtain ⟨rest, hrest⟩ := List.head?_eq_some_iff.1 hfr
  have hv : ((b.appendDummy (q.num + len)).evict W front.num (q.num + len) num
      len).after.packages.values = rest ++ [⟨[], q.num + len⟩] := by simp [Buffer.evict, hrest]
  refine ⟨rfl, ?_, ?_, ?_⟩
  · rw [← NodeList.length_values, hv]
    rw [← NodeList.length_values, hrest] at hfull
    simpa using hfull
  · have hp := hok.prog.snoc (nums_getLast hq)
    rw [Buffer.nums, hrest] at hp
    rw [Buffer.nums, hv]
    simpa using hp
  · rw [hv, List.getLast?_append]; rfl

/-- After an eviction that stayed in the list, the next pass evicts too, and leaves it. -/
theorem second_eviction (W : Wild) (hlen : 0 < len.toNat) (hl : data.length = len.toNat)
    {s : ℕ} {front back : UInt64} (he : Evicted s len front back c.buf) (hd : c.done = false)
    (hs : 2 ≤ s) (hspan : s * len.toNat < 2 ^ 64) (hge : front ≤ num)
    (hnear : (num - back).toNat < len.toNat) :
    ∃ e ∈ (c.pass W num data).evictions, e.distance ≠ 0 := by
  obtain ⟨hsz, hln, hp, hlast⟩ := he
  -- the numbers run from the evicted front to `back` in steps of `len`
  have hB : back.toNat = (front.toNat + (s - 1) * len.toNat) % 2 ^ 64 := by
    have := hp.getLast (y := back) (by rw [List.getLast?_cons, nums_getLast hlast]; rfl)
    rwa [length_nums, show c.buf.packages.size = s - 1 by omega] at this
  rw [Word.toNat_sub'] at hnear
  obtain ⟨t1, t2, t3⟩ := two_evictions hs hspan front.toNat_lt num.toNat_lt
    (UInt64.le_iff_toNat_le.1 hge) hB hnear
  obtain ⟨f, fs, hfs⟩ : ∃ f fs, c.buf.packages.values = f :: fs :=
    List.exists_cons_of_ne_nil fun hn => by simp [hn] at hlast
  have hfr : c.buf.packages.values.head? = some f := by rw [hfs]; rfl
  -- the new front is the second number, which is not above `num`
  have hf : f.num = front + len := by
    apply List.IsChain.rel_head? hp
    rw [Buffer.nums, List.head?_map, hfr]; rfl
  have hle : f.num ≤ num := by
    rw [hf, UInt64.le_iff_toNat_le, UInt64.toNat_add]; exact t1
  have hgap : back + len ≠ num := by
    intro h
    apply t2
    rw [← UInt64.toNat_add, h]
  rw [pass_goes_on W hl hd hfr hlast (by omega) hle hgap, if_pos (by omega)]
  refine ⟨_, List.mem_append_right _ (List.mem_singleton_self _), ?_⟩
  -- `num` is `len` or more above the next place, so `distance` is not zero
  intro hz
  have hz' : distance c.buf.size (back + len) num len = 0 := hz
  have hδ := distance_eq_zero (by omega) hlen hz'
  rw [Word.toNat_sub', UInt64.toNat_add back] at hδ
  omega

/-- **A call that does not fit moves an iterator out of the list.** -/
theorem evicts_out_of_list (W : Wild) (hlen : 0 < len.toNat) (hl : data.length = len.toNat)
    (h : BufOk len b) (hf : ¬ Fits len b num) :
    ∃ n, ∃ e ∈ (addToBuffor W b num data n).evictions, e.distance ≠ 0 := by
  obtain ⟨front, back, hu⟩ := unfit_of_not_fits hf
  have hroom := hu.room
  have hne : b.nums ≠ [] := ne_nil_of_getLast hu.last
  have hpos : 0 < b.packages.size := by
    rw [← length_nums]; exact List.length_pos_iff.2 hne
  -- the call after the pushes that leave one free place
  obtain ⟨j, hj⟩ : ∃ j, b.packages.size + j + 1 = b.size.toNat :=
    ⟨b.size.toNat - b.packages.size - 1, by omega⟩
  obtain ⟨hd, hok, hsz, hln, hfr, q, hq, hqn⟩ := pushed (W := W) hlen hl h hu j (by omega)
  have hfull : (addToBuffor W b num data j).buf.packages.size + 1 =
      (addToBuffor W b num data j).buf.size.toNat := by rw [hsz, hln]; exact hj
  have hgap : q.num + len ≠ num := hu.gap (by omega) hqn
  have hpass := pass_goes_on W hl hd hfr hq (by omega) hu.order hgap
  rw [if_pos hfull, ← addToBuffor_succ] at hpass
  by_cases hdist : distance b.size (q.num + len) num len = 0
  · -- the first eviction stays in the list, so the second does not
    refine ⟨j + 1 + 1, ?_⟩
    rw [addToBuffor_succ]
    have hnear := distance_eq_zero (by omega) hlen hdist
    refine second_eviction W hlen hl (s := b.size.toNat) ?_ ?_ (by omega)
      (h.span hne le_rfl) hu.order hnear
    · rw [hpass, ← hsz]; exact evicted W hok hfr hq hfull
    · rw [hpass]; exact hd
  · rw [← hsz] at hdist
    refine ⟨j + 1, ?_⟩
    rw [hpass]
    exact ⟨_, List.mem_append_right _ (List.mem_singleton_self _), hdist⟩

theorem inList_distance {e : Eviction} (h : e.InList) : e.distance = 0 := by
  by_contra hne
  have h1 : e.distance.toNat ≠ 0 := fun h0 => hne (UInt64.toNat_inj.1 h0)
  have := (h 1 (by omega)).1
  omega

/-- **A call is correct exactly if it fits.** -/
theorem callOk_iff_fits (hlen : 0 < len.toNat) (hl : data.length = len.toNat) (h : BufOk len b) :
    CallOk W b num data ↔ Fits len b num := by
  constructor
  · intro hc
    by_contra hf
    obtain ⟨n, e, he, hd⟩ := evicts_out_of_list W hlen hl h hf
    exact hd (inList_distance ((hc n).1 e he).1)
  · intro hf n
    obtain ⟨he, hok⟩ := fits_call (W := W) hl hf (h.keeps hlen hl) n
    exact ⟨by simp [he], fun _ => hok.keys⟩

/-- One step of a run whose calls fit keeps the invariant. -/
theorem step_ok (hlen : 0 < len.toNat) {ev : BufEvent} (h : BufOk len b)
    (hs : Guarded (BufStep W len) (fun b ev => ev.Fits len b) b ev b') : BufOk len b' := by
  obtain ⟨hs, hf⟩ := hs
  cases hs with
  | add num data n hl hd => exact (fits_call hl hf (h.keeps hlen hl) n).2
  | @print b₁ p hp =>
    by_cases hdata : p.data = []
    · rw [if_pos hdata]
      exact reset_ok len b₁
    · rw [if_neg hdata]
      exact h.pop hp hdata
  | reset => exact reset_ok len b

/-- **The buffer over a run.** Along every run whose calls all fit, the keys of `set` are the
numbers of the packages without data, each designating its package, and the next call is
correct exactly if it fits too. -/
theorem fitting_run_ok (W : Wild) (maxData : UInt64) {len : UInt64} (hlen : 0 < len)
    {es : List BufEvent} {b : Buffer}
    (h : Run (Guarded (BufStep W len) fun b ev => ev.Fits len b) (Buffer.init maxData) es b) :
    KeysMatch b ∧ ∀ num data, data.length = len.toNat →
      (CallOk W b num data ↔ Fits len b num) := by
  have hpos : 0 < len.toNat := UInt64.lt_iff_toNat_lt.1 hlen
  have hok : BufOk len b := h.inv (init_ok len maxData) fun _ _ _ => step_ok hpos
  exact ⟨hok.keys, fun num data hl => callOk_iff_fits hpos hl hok⟩

/-- Room for three packages of one byte: packet 2 comes before packet 1. -/
theorem fitting_run_ok_reordered : ∃ b, KeysMatch b ∧ b.nums = [0, 1, 2] ∧
    (CallOk ⟨fun _ _ => 0, fun _ _ => 0⟩ b 1 [8] ↔ Fits 1 b 1) := by
  have h0 : Run (Guarded (BufStep ⟨fun _ _ => 0, fun _ _ => 0⟩ 1) fun b ev => ev.Fits 1 b)
      (Buffer.init 3) [] (Buffer.init 3) := Run.nil
  have h1 := h0.snoc ⟨BufStep.add 0 [7] 0 rfl rfl, Or.inr (Or.inr (Or.inl rfl))⟩
  have h2 := h1.snoc ⟨BufStep.add 2 [9] 2 rfl rfl,
    Or.inr (Or.inr (Or.inr (Or.inr ⟨⟨[7], 0⟩, rfl, 2, by decide, by decide, by decide⟩)))⟩
  obtain ⟨hk, hc⟩ := fitting_run_ok _ 3 (by decide) h2
  exact ⟨_, hk, rfl, hc 1 [8] rfl⟩

/-- Room for two packages of one byte: packet 2 after packet 0 makes line 37 step back from
`begin()`. -/
theorem eviction_leaves_list : ¬ ∀ (W : Wild) (maxData len : UInt64) (es : List BufEvent)
    (b : Buffer), 0 < len → Run (BufStep W len) (Buffer.init maxData) es b →
      ∀ num data, data.length = len.toNat → CallOk W b num data := by
  intro h
  have h0 : Run (BufStep ⟨fun _ _ => 0, fun _ _ => 0⟩ 1) (Buffer.init 2) [] (Buffer.init 2) := Run.nil
  have h1 := h0.snoc (BufStep.add 0 [7] 0 rfl rfl)
  have hc := h _ _ _ _ _ (by decide) h1 2 [9] rfl 1
  have hd := inList_distance (hc.1 _ (List.mem_singleton_self _)).1
  exact absurd hd (by decide)

end SikMimuw.Receiver
