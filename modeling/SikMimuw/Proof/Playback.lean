import SikMimuw.Proof.Eviction
import SikMimuw.Model.Playback

/-!
# Playback integrity

Without evictions, what a printing thread writes is a stretch of the stream.

* `fits_of_no_eviction`: a call that returns without evicting fits.
* `StreamOk`: the buffer's numbers do not wrap, and every package holds no data or what
  was received under its number. A call that fits keeps it (`StreamOk.keeps`).
* `playback_ok`: writes that follow one another with no `ended` or `emptied` between
  them have numbers exactly `len` apart and received payloads, and a package without
  data ends the thread with an empty buffer.
-/

namespace SikMimuw.Receiver

open Lts

variable {W : Wild} {len num : UInt64} {data : List UInt8} {b b' : Buffer} {c : Call}
  {payload : UInt64 → List UInt8} {rcv : List UInt64}

/-- **A call that returns without evicting fits.** -/
theorem fits_of_no_eviction (hlen : 0 < len.toNat) (hl : data.length = len.toNat) (h : BufOk len b)
    {n : ℕ} (hd : (addToBuffor W b num data n).done = true)
    (he : (addToBuffor W b num data n).evictions = []) : Fits len b num := by
  by_contra hf
  obtain ⟨m, e, hem, -⟩ := evicts_out_of_list W hlen hl h hf
  rw [no_evictions hd he m] at hem
  cases hem

/-- **The buffer holds a stretch of the stream**: its numbers do not wrap, and a package has
no data or the payload that was received under its number. -/
structure StreamOk (payload : UInt64 → List UInt8) (rcv : List UInt64) (len : UInt64)
    (b : Buffer) : Prop where
  ok : BufOk len b
  noWrap : ∀ front ∈ b.nums.head?, front.toNat + (b.nums.length - 1) * len.toNat < 2 ^ 64
  payload : ∀ p ∈ b.packages.values, p.data = [] ∨ p.data = payload p.num ∧ p.num ∈ rcv

/-- Packets that have arrived stay so. -/
theorem StreamOk.more (h : StreamOk payload rcv len b) (num : UInt64) :
    StreamOk payload (num :: rcv) len b :=
  ⟨h.ok, h.noWrap, fun p hp => (h.payload p hp).imp id fun hq => ⟨hq.1, List.mem_cons_of_mem _ hq.2⟩⟩

theorem nums_head {front : Package} (hf : b.packages.values.head? = some front) :
    b.nums.head? = some front.num := by
  rw [Buffer.nums, List.head?_map, hf]; rfl

/-- The last number, when there is nothing to wrap. -/
theorem nums_last (h : BufOk len b) {front back : Package}
    (hf : b.packages.values.head? = some front) (hb : b.packages.values.getLast? = some back) :
    back.num.toNat = (front.num.toNat + (b.packages.size - 1) * len.toNat) % 2 ^ 64 := by
  obtain ⟨l, hl⟩ := List.head?_eq_some_iff.1 (nums_head hf)
  have hp := h.prog
  have hlast := nums_getLast hb
  rw [hl] at hp hlast
  have := hp.getLast hlast
  rw [← length_nums, hl]
  simpa using this

/-- The place behind the back does not wrap, if the packet is there or further on within the
room that is left. -/
theorem noWrap_next (h : BufOk len b) {front back : Package}
    (hf : b.packages.values.head? = some front) (hb : b.packages.values.getLast? = some back) {k : ℕ}
    (hroom : b.packages.size + 1 + k ≤ b.size.toNat) (hge : front.num ≤ num)
    (hnum : num = back.num + len + UInt64.ofNat k * len) :
    front.num.toNat + b.packages.size * len.toNat < 2 ^ 64 := by
  have hne := ne_nil_of_getLast hb
  have hpos : 0 < b.packages.size := by
    rw [← length_nums]; exact List.length_pos_of_ne_nil hne
  have hlast := nums_last h hf hb
  have hspan := h.span hne (n := b.packages.size + k) (by omega)
  have hk : (UInt64.ofNat k * len).toNat = k * len.toNat := by
    have h1 : k * len.toNat < 2 ^ 64 := h.span hne (by omega)
    have h2 : (UInt64.ofNat k).toNat = k := by
      have := b.size.toNat_lt
      simpa using Nat.mod_eq_of_lt (show k < 2 ^ 64 by omega)
    rw [UInt64.toNat_mul, h2, Nat.mod_eq_of_lt h1]
  -- if the numbers wrapped before `num`, `num` would be below the front
  rw [UInt64.le_iff_toNat_le, hnum, UInt64.toNat_add, UInt64.toNat_add, hk, hlast] at hge
  obtain ⟨m, hm⟩ : ∃ m, b.packages.size = m + 1 := ⟨b.packages.size - 1, by omega⟩
  rw [hm, Nat.add_mul, Nat.add_mul, Nat.one_mul] at hspan
  rw [hm, Nat.add_sub_cancel] at hge
  rw [hm, Nat.add_mul, Nat.one_mul]
  have hF := front.num.toNat_lt
  set P := m * len.toNat
  set Q := k * len.toNat
  omega

/-- One more package at the end, in place. -/
theorem noWrap_snoc {nums : List UInt64} {front : UInt64} {n : ℕ} (hlen : nums.length = n)
    (hf : nums.head? = some front) (h : front.toNat + n * len.toNat < 2 ^ 64) (x : UInt64) :
    ∀ a ∈ (nums ++ [x]).head?, a.toNat + ((nums ++ [x]).length - 1) * len.toNat < 2 ^ 64 := by
  intro a ha
  rw [List.head?_append, hf] at ha
  simp only [Option.some_or, Option.mem_some_iff] at ha
  subst ha
  simpa [hlen] using h

/-- **A call that fits keeps the stretch.** -/
theorem StreamOk.keeps (h : StreamOk payload rcv len b) (hlen : 0 < len.toNat)
    (hl : (payload num).length = len.toNat) (hnum : num ∈ rcv) :
    Keeps (StreamOk payload rcv len) len num (payload num) b where
  init := h
  fill := by
    intro it hit
    refine ⟨(h.ok.keeps hlen hl).fill it hit, by rw [nums_fill]; exact h.noWrap, ?_⟩
    intro p hp
    rcases NodeList.mem_modify hp with ⟨q, hq, rfl⟩ | hp
    -- the filled node held the missing package `num`
    · have := hq.unique ((h.ok.keys _ _).1 hit)
      subst this
      exact Or.inr ⟨rfl, hnum⟩
    · exact h.payload p hp
  first := by
    intro hne
    have hnums : ({ b with size := b.maxData / len }.append num (payload num)).nums = [num] := by
      rw [nums_append]; simp [Buffer.nums, hne]
    refine ⟨(h.ok.keeps hlen hl).first hne, ?_, ?_⟩
    · rw [hnums]
      intro front _
      simpa using front.toNat_lt
    · intro p hp
      simp only [Buffer.append, NodeList.values_pushBack, hne, List.nil_append,
        List.mem_singleton] at hp
      subst hp
      exact Or.inr ⟨rfl, hnum⟩
  append := by
    intro b' front back hb' hf hb hroom hge hnext
    refine ⟨(h.ok.keeps hlen hl).append _ _ _ hb'.ok hf hb hroom hge hnext, ?_, ?_⟩
    · rw [nums_append]
      refine noWrap_snoc (length_nums b') (nums_head hf) ?_ num
      exact noWrap_next hb'.ok hf hb (k := 0) (by omega) hge (by simp [hnext])
    · intro p hp
      simp only [Buffer.append, NodeList.values_pushBack, List.mem_append, List.mem_singleton] at hp
      rcases hp with hp | rfl
      · exact hb'.payload p hp
      · exact Or.inr ⟨rfl, hnum⟩
  dummy := by
    intro b' front back k hb' hf hb hroom hge hk hnum'
    refine ⟨(h.ok.keeps hlen hl).dummy _ _ _ k hb'.ok hf hb hroom hge hk hnum', ?_, ?_⟩
    · rw [nums_appendDummy]
      exact noWrap_snoc (length_nums b') (nums_head hf) (noWrap_next hb'.ok hf hb hroom hge hnum') _
    · intro p hp
      rw [Buffer.appendDummy_values, List.mem_append, List.mem_singleton] at hp
      rcases hp with hp | rfl
      · exact hb'.payload p hp
      · exact Or.inl rfl

/-- A call that fits does not change the front of a list that is not empty. -/
theorem keeps_head (b : Buffer) : Keeps (fun b' => b.nums ≠ [] → b'.nums.head? = b.nums.head?)
    len num data b where
  init := fun _ => rfl
  fill := fun _ _ _ => by rw [nums_fill]
  first := fun hv hne => absurd hv (nums_ne_nil.1 hne)
  append := by
    intro b' front back hb' hf _ _ _ _ hne
    rw [nums_append, List.head?_append, nums_head hf]
    exact (nums_head hf).symm.trans (hb' hne)
  dummy := by
    intro b' front back k hb' hf _ _ _ _ _ hne
    rw [nums_appendDummy, List.head?_append, nums_head hf]
    exact (nums_head hf).symm.trans (hb' hne)

/-- **A package with data is taken**: the next one is `len` above it. -/
theorem StreamOk.pop (h : StreamOk payload rcv len b) {p : Package} (hp : b.pop = some (p, b'))
    (hdata : p.data ≠ []) : StreamOk payload rcv len b' ∧
      ∀ x ∈ b'.nums.head?, x.toNat = p.num.toNat + len.toNat := by
  have hok := h.ok.pop hp hdata
  obtain ⟨hq, rfl⟩ := pop_eq_some.1 hp
  obtain ⟨ps, hps⟩ := List.head?_eq_some_iff.1 hq
  have hnums : b.nums = p.num :: ps.map Package.num := by simp [Buffer.nums, hps]
  have hnums' : ({ b with packages := b.packages.popFront } : Buffer).nums = ps.map Package.num := by
    simp [Buffer.nums, hps]
  have hw := h.noWrap p.num (by rw [hnums]; rfl)
  have hprog := h.ok.prog
  rw [hnums, List.length_cons, Nat.add_sub_cancel] at hw
  rw [hnums] at hprog
  -- the number behind the front does not wrap either
  have hnext : ∀ x ∈ (ps.map Package.num).head?, x.toNat = p.num.toNat + len.toNat ∧
      p.num.toNat + len.toNat + ((ps.map Package.num).length - 1) * len.toNat < 2 ^ 64 := by
    intro x hx
    have hxe := List.IsChain.rel_head? hprog hx
    obtain ⟨m, hm⟩ : ∃ m, (ps.map Package.num).length = m + 1 := by
      cases hpm : ps.map Package.num with
      | nil => simp [hpm] at hx
      | cons y ys => exact ⟨ys.length, rfl⟩
    rw [hm, Nat.add_mul, Nat.one_mul] at hw
    rw [hm, Nat.add_sub_cancel, hxe, UInt64.toNat_add]
    omega
  refine ⟨⟨hok, ?_, ?_⟩, ?_⟩
  · rw [hnums']
    intro x hx
    rw [(hnext x hx).1]; exact (hnext x hx).2
  · intro q hq
    rw [NodeList.values_popFront] at hq
    exact h.payload q (List.mem_of_mem_tail hq)
  · rw [hnums']
    exact fun x hx => (hnext x hx).1

/-- All that a critical section of `printing_loop` can do. -/
theorem printingSection_cases (b : Buffer) (quit : Bool) :
    (b.printingSection quit = (b, none) ∧ (quit = true ∨ b.packages.values = [])) ∨
      (∃ p b', b.pop = some (p, b') ∧ p.data = [] ∧ b.printingSection quit = (b'.reset, none)) ∨
      ∃ p b', b.pop = some (p, b') ∧ p.data ≠ [] ∧ b.printingSection quit = (b', some p) := by
  unfold Buffer.printingSection
  split
  · rename_i hq
    exact Or.inl ⟨rfl, Or.inl hq⟩
  · split
    · rename_i hp
      refine Or.inl ⟨rfl, Or.inr ?_⟩
      simpa [Buffer.pop] using hp
    · rename_i p b' hp
      split
      · rename_i hdata
        exact Or.inr (Or.inl ⟨p, b', hp, hdata, rfl⟩)
      · rename_i hdata
        exact Or.inr (Or.inr ⟨p, b', hp, hdata, rfl⟩)

/-- Writes next to each other in the log are `len` apart. -/
def Adjacent (len : UInt64) (o o' : Output) : Prop :=
  ∀ p q, o = .wrote p → o' = .wrote q → q.num.toNat = p.num.toNat + len.toNat

/-- **The invariant of reception and playback.** -/
structure PlaybackOk (payload : UInt64 → List UInt8) (len : UInt64) (s : Playback) : Prop where
  stream : StreamOk payload s.received len s.buf
  adjacent : s.log.IsChain (Adjacent len)
  wrote : ∀ p, .wrote p ∈ s.log → p.num ∈ s.received ∧ p.data = payload p.num
  next : ∀ p, s.log.getLast? = some (.wrote p) →
    ∃ x, s.buf.nums.head? = some x ∧ x.toNat = p.num.toNat + len.toNat

/-- The log gets an entry `o`, and `emptied` if the buffer is empty now. -/
theorem adjacent_log {log : List Output} {o : Output} (h : log.IsChain (Adjacent len))
    (ho : ∀ o' ∈ log.getLast?, Adjacent len o' o) (b : Buffer) :
    (log ++ (o :: b.emptied)).IsChain (Adjacent len) := by
  refine List.isChain_append.2 ⟨h, ?_, ?_⟩
  · unfold Buffer.emptied
    split
    · refine List.isChain_cons_cons.2 ⟨?_, List.isChain_singleton _⟩
      intro p q _ hq
      cases hq
    · exact List.isChain_singleton _
  · intro x hx y hy
    simp only [List.head?_cons, Option.mem_some_iff] at hy
    subst hy
    exact ho x hx

theorem getLast_log (log : List Output) (o : Output) (b : Buffer) :
    (log ++ (o :: b.emptied)).getLast? =
      some (if b.packages.values = [] then .emptied else o) := by
  unfold Buffer.emptied
  rw [List.getLast?_append]
  split <;> rfl

theorem mem_log {log : List Output} {o : Output} {b : Buffer} {p : Package}
    (h : .wrote p ∈ log ++ (o :: b.emptied)) : .wrote p ∈ log ∨ o = .wrote p := by
  unfold Buffer.emptied at h
  split at h <;> simpa [eq_comm] using h

/-- A thread that ends leaves the invariant as it is. -/
theorem PlaybackOk.ends {s : Playback} (h : PlaybackOk payload len s) {b : Buffer}
    (hb : StreamOk payload s.received len b) :
    PlaybackOk payload len
      { s with buf := b, printing := false, log := s.log ++ (.ended :: b.emptied) } := by
  refine ⟨hb, adjacent_log h.adjacent (fun _ _ _ _ _ hq => by cases hq) b, ?_, ?_⟩
  · intro p hp
    rcases mem_log hp with hp | hp
    · exact h.wrote p hp
    · cases hp
  · intro p hp
    rw [getLast_log] at hp
    split at hp <;> cases hp

/-- **One step of reception or playback** keeps the invariant. -/
theorem playback_step (hlen : 0 < len.toNat) (hpay : ∀ n, (payload n).length = len.toNat)
    {s t : Playback} {e : PlaybackEvent} (h : PlaybackOk payload len s)
    (hs : PlaybackStep W payload s e t) : PlaybackOk payload len t := by
  cases hs with
  | recv num n hd he =>
    have hf := fits_of_no_eviction hlen (hpay num) h.stream.ok hd he
    have hstream := (h.stream.more num).keeps hlen (hpay num) List.mem_cons_self
    refine ⟨(fits_call (hpay num) hf hstream n).2, h.adjacent, ?_, ?_⟩
    · exact fun p hp => ⟨List.mem_cons_of_mem _ (h.wrote p hp).1, (h.wrote p hp).2⟩
    · intro p hp
      obtain ⟨x, hx, hxe⟩ := h.next p hp
      -- the last write left a front behind, which a reception does not change
      have hne : s.buf.nums ≠ [] := by
        intro h0
        simp [h0] at hx
      exact ⟨x, ((fits_call (hpay num) hf (keeps_head s.buf) n).2 hne).trans hx, hxe⟩
  | create => exact ⟨h.stream, h.adjacent, h.wrote, h.next⟩
  | printingSection quit hp =>
    unfold Playback.afterSection
    rcases printingSection_cases s.buf quit with ⟨hs, -⟩ | ⟨p, b', -, -, hs⟩ | ⟨p, b', hpop, hdata, hs⟩
    · rw [hs]; exact h.ends h.stream
    · rw [hs]
      exact h.ends ⟨reset_ok len b', fun _ hx => (by cases hx), fun _ hx => (by cases hx)⟩
    · rw [hs]
      obtain ⟨hstream, hnext⟩ := h.stream.pop hpop hdata
      have hhead : s.buf.packages.values.head? = some p := (pop_eq_some.1 hpop).1
      refine ⟨hstream, adjacent_log h.adjacent ?_ b', ?_, ?_⟩
      · intro o ho r q hr hq
        -- the package written now is the front that the last write left
        cases hq
        subst hr
        obtain ⟨x, hx, hxe⟩ := h.next r (by simpa using ho)
        rw [nums_head hhead, Option.some.injEq] at hx
        rw [hx]; exact hxe
      · intro q hq
        rcases mem_log hq with hq | hq
        · exact h.wrote q hq
        · cases hq
          have := h.stream.payload p (List.mem_of_mem_head? hhead)
          exact ⟨(this.resolve_left hdata).2, (this.resolve_left hdata).1⟩
      · intro q hq
        rw [getLast_log] at hq
        by_cases hne : b'.packages.values = []
        · rw [if_pos hne] at hq
          cases hq
        · rw [if_neg hne] at hq
          simp only [Option.some.injEq, Output.wrote.injEq] at hq
          subst hq
          obtain ⟨front, hfr⟩ := Option.isSome_iff_exists.1 (List.isSome_head?.2 hne)
          exact ⟨front.num, nums_head hfr, hnext _ (nums_head hfr)⟩

theorem playback_init (payload : UInt64 → List UInt8) (len maxData : UInt64) :
    PlaybackOk payload len (Playback.init maxData) :=
  ⟨⟨init_ok len maxData, fun _ hx => (by cases hx), fun _ hx => (by cases hx)⟩, List.isChain_nil,
    fun _ hp => (by cases hp), fun _ hp => (by cases hp)⟩

/-- **Playback integrity.** Along every run without evictions:

* writes with no `ended` and no `emptied` between them have numbers exactly `len` apart;
* a written package was received, and has the payload received under its number;
* a package at the front that was not received, or has no data, is not written: the
  section that takes it resets the buffer and ends the thread. -/
theorem playback_ok (W : Wild) (maxData : UInt64) {len : UInt64} (hlen : 0 < len)
    {payload : UInt64 → List UInt8} (hpay : ∀ n, (payload n).length = len.toNat)
    {es : List PlaybackEvent} {s : Playback}
    (h : Run (PlaybackStep W payload) (Playback.init maxData) es s) :
    (∀ ps : List Package, ps.map Output.wrote <:+: s.log →
      ps.IsChain fun p q => q.num.toNat = p.num.toNat + len.toNat) ∧
    (∀ p, .wrote p ∈ s.log → p.num ∈ s.received ∧ p.data = payload p.num) ∧
    ∀ front t, s.buf.packages.values.head? = some front →
      (front.num ∉ s.received ∨ front.data = []) →
      PlaybackStep W payload s (.printingSection false) t →
      t.buf.packages.values = [] ∧ t.buf.set.entries = [] ∧ t.printing = false ∧
        t.log = s.log ++ [.ended, .emptied] := by
  have hpos : 0 < len.toNat := UInt64.lt_iff_toNat_lt.1 hlen
  have hok : PlaybackOk payload len s :=
    h.inv (playback_init payload len maxData) fun _ _ _ => playback_step hpos hpay
  refine ⟨?_, hok.wrote, ?_⟩
  · intro ps hps
    have := hok.adjacent.infix hps
    rw [List.isChain_map] at this
    exact this.imp fun p q hpq => hpq p q rfl rfl
  · intro front t hfr hmiss hs
    have hdata : front.data = [] := by
      rcases hmiss with hm | hm
      · rcases hok.stream.payload front (List.mem_of_mem_head? hfr) with hd | hd
        · exact hd
        · exact absurd hd.2 hm
      · exact hm
    cases hs
    -- the section takes the missing package, and resets
    have hsec : s.buf.printingSection false =
        ({ s.buf with packages := s.buf.packages.popFront }.reset, none) := by
      simp [Buffer.printingSection, Buffer.pop, hfr, hdata]
    unfold Playback.afterSection
    rw [hsec]
    exact ⟨rfl, rfl, rfl, rfl⟩

/-- Packets 0, 2, 1 of one byte are received in that order and written in theirs. -/
theorem playback_ok_reordered :
    ∃ es s, Run (PlaybackStep ⟨fun _ _ => 0, fun _ _ => 0⟩ fun n => [n.toUInt8])
        (Playback.init 3) es s ∧
      s.log = [.wrote ⟨[0], 0⟩, .wrote ⟨[1], 1⟩, .wrote ⟨[2], 2⟩, .emptied] ∧
      [(⟨[0], 0⟩ : Package), ⟨[1], 1⟩, ⟨[2], 2⟩].IsChain
        fun p q => q.num.toNat = p.num.toNat + (1 : UInt64).toNat := by
  have h0 : Run (PlaybackStep ⟨fun _ _ => 0, fun _ _ => 0⟩ fun n => [n.toUInt8])
      (Playback.init 3) [] (Playback.init 3) := Run.nil
  have h1 := h0.snoc (PlaybackStep.recv 0 0 rfl (List.isEmpty_iff.1 (by decide)))
  have h2 := h1.snoc (PlaybackStep.recv 2 2 rfl (List.isEmpty_iff.1 (by decide)))
  have h3 := h2.snoc (PlaybackStep.recv 1 0 rfl (List.isEmpty_iff.1 (by decide)))
  have h4 := h3.snoc (PlaybackStep.create rfl)
  have h5 := h4.snoc (PlaybackStep.printingSection false rfl)
  have h6 := h5.snoc (PlaybackStep.printingSection false rfl)
  have h7 := h6.snoc (PlaybackStep.printingSection false rfl)
  have hc := playback_ok _ 3 (show (0 : UInt64) < 1 by decide) (fun _ => rfl) h7
  exact ⟨_, _, h7, rfl, hc.1 _ ⟨[], [.emptied], rfl⟩⟩

end SikMimuw.Receiver
