import SikMimuw.Proof.Broadcast

/-!
# Playback is contiguous

Without evictions, what a receiver writes is made of contiguous stretches of what a sender read.

* `SectionsOk`: `PlaybackOk`, over the sessions that follow one another.
* `receiver_run`: in a run of the whole system the receiver gets the stream of the session.
* `broadcast_contiguous`: packages taken with no end and no empty buffer between them are
  consecutive blocks of one sender.
-/

namespace SikMimuw

open Lts Receiver Transmitter

/-! ### Many sessions -/

namespace Receiver

variable {W : Wild} {payload : UInt64 → UInt64 → List UInt8} {len : UInt64 → UInt64}
  {known : UInt64 → UInt64 → Prop} {p p' : Sections} {e : SectionEvent}

/-- The packet has a session, and is the one that its session has under its number; the call
evicts nothing. -/
def InStream (payload : UInt64 → UInt64 → List UInt8) (known : UInt64 → UInt64 → Prop)
    (d : Datagram) (evictions : List Eviction) : Prop :=
  (d.session ≠ 0 ∧ known d.session d.num ∧ d.data = payload d.session d.num) ∧
    evictions.isEmpty = true

/-- **The invariant**: that of playback, for the stream of the running session. As long as there is
no session, for any stream. -/
structure SectionsOk (payload : UInt64 → UInt64 → List UInt8) (len : UInt64 → UInt64)
    (known : UInt64 → UInt64 → Prop) (p : Sections) : Prop where
  playback : ∀ pl ln, 0 < ln.toNat → (∀ n, (pl n).length = ln.toNat) →
    (p.session ≠ 0 → pl = payload p.session ∧ ln = len p.session) → PlaybackOk pl ln p.playback
  known : ∀ num ∈ p.playback.received, p.session ≠ 0 ∧ known p.session num

theorem init_sectionsOk (maxData : UInt64) : SectionsOk payload len known (Sections.init maxData) :=
  ⟨fun pl ln _ _ _ => playback_init pl ln maxData, by simp [Sections.init, Playback.init]⟩

/-- An empty buffer is one of any stream. -/
theorem streamOk_of_empty {b : Buffer} (h : b.Empty) (pl : UInt64 → List UInt8) (rcv : List UInt64)
    (ln : UInt64) : StreamOk pl rcv ln b := by
  obtain ⟨hp, hs⟩ := h
  have hnums : b.nums = [] := by simp [Buffer.nums, hp]
  refine ⟨⟨?_, ?_, ?_, ?_⟩, ?_, ?_⟩
  · rw [hnums]
    exact Progression.nil
  · exact fun hne => absurd hnums hne
  · rw [hnums]
    exact Nat.zero_le _
  · intro k it
    rw [hs]
    refine ⟨fun hk => (by cases hk), fun hd => ?_⟩
    have hm := hd.mem
    rw [hp] at hm
    cases hm
  · rw [hnums]
    exact fun _ hf => (by cases hf)
  · rw [hp]
    exact fun _ hf => (by cases hf)

/-- The buffer is emptied. -/
theorem PlaybackOk.reset {pl : UInt64 → List UInt8} {ln : UInt64} {s : Playback}
    (h : PlaybackOk pl ln s) :
    PlaybackOk pl ln { s with buf := s.buf.reset, log := s.log ++ [.emptied] } where
  stream := streamOk_of_empty ⟨rfl, rfl⟩ pl s.received ln
  adjacent := by
    refine List.isChain_append.2 ⟨h.adjacent, List.isChain_singleton _, ?_⟩
    intro x _ y hy p q _ hq
    simp only [List.head?_cons, Option.mem_some_iff] at hy
    rw [← hy] at hq
    cases hq
  wrote := by
    intro q hq
    rw [List.mem_append, List.mem_singleton] at hq
    exact h.wrote q (hq.resolve_right (by simp))
  next := by
    intro q hq
    simp at hq

/-- **One section** keeps the invariant. -/
theorem section_step (h : SectionsOk payload len known p)
    (hst : AllowedStep W (InStream payload known) p e p') : SectionsOk payload len known p' := by
  obtain ⟨hst, hok⟩ := hst
  cases hst with
  | call d n hses hd =>
    obtain ⟨⟨h0, hknown, hdata⟩, hev⟩ := hok
    refine ⟨fun pl ln hln hpl hrun => ?_, fun num hnum => ?_⟩
    · obtain ⟨rfl, rfl⟩ := hrun h0
      have hold : PlaybackOk (payload d.session) (len d.session) p.playback := by
        refine h.playback _ _ hln hpl fun hne => ?_
        rw [hses.resolve_left hne]
        exact ⟨rfl, rfl⟩
      rw [hdata] at hd hev ⊢
      exact playback_step (W := W) hln hpl hold (.recv d.num n hd (List.isEmpty_iff.1 hev))
    · rcases List.mem_cons.1 hnum with rfl | hnum
      · exact ⟨h0, hknown⟩
      · obtain ⟨hne, hk⟩ := h.known num hnum
        refine ⟨h0, ?_⟩
        rw [← hses.resolve_left hne]
        exact hk
  | create hp =>
    refine ⟨fun pl ln hln hpl hrun => ?_, h.known⟩
    exact playback_step (W := W) hln hpl (h.playback pl ln hln hpl hrun) (.create hp)
  | printingSection quit hp =>
    refine ⟨fun pl ln hln hpl hrun => ?_, fun num hnum => h.known num ?_⟩
    · exact playback_step (W := W) hln hpl (h.playback pl ln hln hpl hrun) (.printingSection quit hp)
    · change num ∈ (p.playback.afterSection quit).received at hnum
      unfold Playback.afterSection at hnum
      split at hnum <;> exact hnum
  | reset => exact ⟨fun pl ln hln hpl hrun => (h.playback pl ln hln hpl hrun).reset, h.known⟩
  | restart hp he =>
    refine ⟨fun pl ln _ _ _ => ⟨streamOk_of_empty he pl [] ln, List.isChain_nil, ?_, ?_⟩, ?_⟩
    · exact fun _ hq => (by cases hq)
    · exact fun _ hq => (by cases hq)
    · exact fun _ hq => (by cases hq)

end Receiver

/-! ### The whole system -/

variable {ι : Type} [DecidableEq ι] {e : Endian} {W : Wild} {stations : ι → Station}
  {b : Broadcast ι} {i : ι} {maxData : UInt64}

/-- What the step does at the receiver copies no empty `set` and evicts nothing. -/
def Broadcast.Roomy (e : Endian) (W : Wild) (stations : ι → Station) (b : Broadcast ι)
    (event : BroadcastEvent ι) : Prop :=
  ∀ ev ∈ b.atReceiver e stations event, CopiesKeys b.receiver.state ev ∧
    b.receiver.Returns W (fun _ evictions => evictions.isEmpty = true) ev

instance (b : Broadcast ι) (event : BroadcastEvent ι) :
    Decidable (b.Roomy e W stations event) :=
  inferInstanceAs (Decidable (∀ ev ∈ b.atReceiver e stations event, _))

/-- What the senders have sent is the streams `payload`, with the numbers `known`. -/
def Broadcast.Streams (stations : ι → Station) (payload : UInt64 → UInt64 → List UInt8)
    (known : UInt64 → UInt64 → Prop) (b : Broadcast ι) : Prop :=
  ∀ i num data, b.SentBy i num data →
    known (stations i).sessionId num ∧ data = payload (stations i).sessionId num

/-- **The receiver gets the stream of its session**, whatever the network does. -/
theorem receiver_run {payload : UInt64 → UInt64 → List UInt8} {known : UInt64 → UInt64 → Prop}
    (hp : ∀ i, 1 ≤ (stations i).params.psize) (h0 : ∀ i, (stations i).sessionId ≠ 0)
    {es : List (BroadcastEvent ι)}
    (h : Run (Guarded (Fires (Broadcast.step e W stations)) (Broadcast.Roomy e W stations))
      (Broadcast.init stations maxData) es b) (hs : b.Streams stations payload known) :
    ∃ evs, Run (Guarded (Fires (Traced.step W)) fun t ev => CopiesKeys t.state ev ∧
      t.Returns W (InStream payload known) ev) (Traced.init maxData) evs b.receiver := by
  induction h with
  | nil => exact ⟨[], Run.nil⟩
  | @snoc es u event u' hrun hst ih =>
    have hok : BroadcastOk stations u := hrun.inv (init_broadcastOk stations maxData)
      fun _ _ _ hI hst => step_broadcastOk hp h0 hI hst.1
    obtain ⟨hst, hroomy⟩ := hst
    rcases Broadcast.step_cases hst with ⟨i, ev, s, hsend, rfl⟩ | ⟨ev, t, hev, ht, rfl⟩
    · -- what was sent before is sent still
      refine ih fun j num data hsent => hs j num data ?_
      unfold Broadcast.SentBy
      dsimp only
      by_cases hj : j = i
      · subst hj
        rw [Function.update_self]
        exact (Transmitter.step_originals hsend).subset hsent
      · rw [Function.update_of_ne hj]
        exact hsent
    · obtain ⟨evs, hevs⟩ := ih hs
      obtain ⟨hkeys, hret⟩ := hroomy ev hev
      refine ⟨evs ++ [ev], hevs.snoc ⟨ht, hkeys, ?_⟩⟩
      obtain ⟨received, ha, hsent⟩ := hok.apart
      -- the packet of the call comes from a datagram of the session
      have hpk : ∀ num data, u.receiver.state.data.packet = some (num, data) →
          InStream payload known ⟨u.receiver.state.session, num, data⟩ [] := by
        intro num data hd
        obtain ⟨d, hmem, hses, rfl, rfl⟩ := ha.inHand num data hd
        obtain ⟨j, hj, hby⟩ := hsent d hmem
        obtain ⟨hknown, hdata⟩ := hs j _ _ hby
        refine ⟨⟨?_, ?_, ?_⟩, rfl⟩
        · rw [← hses]
          exact ha.nonzero d hmem
        · rw [← hses, hj]
          exact hknown
        · rw [← hses, hj]
          exact hdata
      cases ev with
      | data leave recv =>
        intro x hx hdone
        refine ⟨?_, hret x hx hdone⟩
        unfold Traced.call at hx
        split at hx
        · rename_i num data hpc
          rw [Option.mem_some_iff] at hx
          subst hx
          exact (hpk num data (by rw [hpc]; rfl)).1
        · rename_i num data hpc
          rw [Option.mem_some_iff] at hx
          subst hx
          exact (hpk num data (by rw [hpc]; rfl)).1
        · cases hx
      | signal | run | printer | requester => trivial

omit [DecidableEq ι] in
/-- Sessions with different ids have streams: a block is known by its session and its number. -/
theorem BroadcastOk.streams (hok : BroadcastOk stations b) (hp : ∀ i, 1 ≤ (stations i).params.psize)
    (hinj : Function.Injective fun i => (stations i).sessionId)
    (hbytes : ∀ i, (originals (b.senders i).log).length * (stations i).params.psize < 2 ^ 64) :
    ∃ (payload : UInt64 → UInt64 → List UInt8) (len : UInt64 → UInt64),
      (∀ ses, 0 < (len ses).toNat ∧ ∀ n, (payload ses n).length = (len ses).toNat) ∧
      ∀ i num data, b.SentBy i num data → data = payload (stations i).sessionId num ∧
        (len (stations i).sessionId).toNat = (stations i).params.psize := by
  have hone : ∀ ses, ∃ (pl : UInt64 → List UInt8) (ln : UInt64),
      (0 < ln.toNat ∧ ∀ n, (pl n).length = ln.toNat) ∧
      ∀ i num data, b.SentBy i num data → (stations i).sessionId = ses → data = pl num ∧
        ln.toNat = (stations i).params.psize := by
    intro ses
    by_cases hex : ∃ i num data, b.SentBy i num data ∧ (stations i).sessionId = ses
    swap
    · exact ⟨fun _ => [0], 1, ⟨by decide, fun _ => rfl⟩,
        fun i num data hs hi => absurd ⟨i, num, data, hs, hi⟩ hex⟩
    obtain ⟨i, num₀, data₀, hs₀, hi⟩ := hex
    have hlt : (stations i).params.psize < 2 ^ 64 := by
      have hpos := List.length_pos_of_mem hs₀
      exact lt_of_le_of_lt (Nat.le_mul_of_pos_left _ hpos) (hbytes i)
    have hln : (UInt64.ofNat (stations i).params.psize).toNat = (stations i).params.psize := by
      rw [UInt64.toNat_ofNat']
      exact Nat.mod_eq_of_lt hlt
    -- the block with number `n`, if there is one
    have hblock : ∀ n, ∃ data : List UInt8, data.length = (stations i).params.psize ∧
        ∀ data', b.SentBy i n data' → data' = data := by
      intro n
      by_cases hn : ∃ data, b.SentBy i n data
      · obtain ⟨data, hs⟩ := hn
        obtain ⟨k, hk⟩ := hok.block (p := ⟨data, n⟩) hs
        refine ⟨data, hk.length, fun data' hs' => ?_⟩
        obtain ⟨m, hm, hread, -⟩ := (hok.senders i).stream.read hs
        obtain ⟨m', hm', hread', -⟩ := (hok.senders i).stream.read hs'
        have h1 := ((hok.senders i).stream.block (hbytes i) hm).1
        have h2 := ((hok.senders i).stream.block (hbytes i) hm').1
        have hmm : m = m' := Nat.eq_of_mul_eq_mul_right (hp i) (h1.symm.trans h2)
        subst hmm
        rw [hread, Option.some.injEq] at hread'
        exact hread'.symm
      · exact ⟨List.replicate (stations i).params.psize 0, by simp,
          fun data' hs' => absurd ⟨data', hs'⟩ hn⟩
    choose pl hpl huniq using hblock
    refine ⟨pl, UInt64.ofNat (stations i).params.psize, ⟨?_, fun n => ?_⟩, fun j num data hs hj => ?_⟩
    · rw [hln]
      exact hp i
    · rw [hln]
      exact hpl n
    · have hij : j = i := hinj (hj.trans hi.symm)
      subst hij
      exact ⟨huniq num data hs, hln⟩
  choose payload len hlen hpay using hone
  exact ⟨payload, len, hlen, fun i num data hs => hpay _ i num data hs rfl⟩

/-- Blocks of which each is one place behind the last. -/
theorem consecutive {psize : ℕ} {blocks : List (List UInt8)} {ps : List Receiver.Package}
    (hp : 1 ≤ psize) (hchain : ps.IsChain fun p q => q.num.toNat = p.num.toNat + psize)
    (hblock : ∀ p ∈ ps, ∃ k, p.num.toNat = k * psize ∧ blocks[k]? = some p.data) :
    ∀ k, (∀ p ∈ ps.head?, p.num.toNat = k * psize) → ps.map Receiver.Package.data <+: blocks.drop k := by
  induction ps with
  | nil => exact fun k _ => List.nil_prefix
  | cons p ps ih =>
    intro k hk
    obtain ⟨hnext, hchain⟩ := List.isChain_cons.1 hchain
    have hnum := hk p rfl
    obtain ⟨k', hk', hdata⟩ := hblock p List.mem_cons_self
    have hkk : k' = k := Nat.eq_of_mul_eq_mul_right hp (hk'.symm.trans hnum)
    subst hkk
    have hrest := ih hchain (fun q hq => hblock q (List.mem_cons_of_mem _ hq)) (k' + 1) fun q hq => by
      rw [hnext q hq, hnum, Nat.succ_mul]
    obtain ⟨hlt, hget⟩ := List.getElem?_eq_some_iff.1 hdata
    rw [List.drop_eq_getElem_cons hlt, hget, List.map_cons, List.cons_prefix_cons]
    exact ⟨rfl, hrest⟩

/-- The blocks from number `k` on are the bytes from `k * psize` on. -/
theorem flatten_drop {psize : ℕ} {blocks : List (List UInt8)} (h : ∀ r ∈ blocks, r.length = psize) :
    ∀ k, (blocks.drop k).flatten = blocks.flatten.drop (k * psize) := by
  induction blocks with
  | nil => simp
  | cons r rs ih =>
    intro k
    cases k with
    | zero => simp
    | succ k =>
      have hr : r.length = psize := h r List.mem_cons_self
      have hle : r.length ≤ (k + 1) * psize := by rw [hr, Nat.succ_mul]; omega
      rw [List.drop_succ_cons, ih fun r hr => h r (List.mem_cons_of_mem _ hr), List.flatten_cons,
        List.drop_append, List.drop_eq_nil_of_le hle, hr, Nat.succ_mul, Nat.add_sub_cancel,
        List.nil_append]

/-- **Playback is contiguous**, from `stdin` to `stdout`. In every run of senders with different
session ids, none of them 0, and packets that are not empty, each sending fewer than `2 ^ 64` bytes,
and a receiver that evicts nothing and copies no empty `set`:

* packages that its printing threads took with no end of a thread and no empty buffer between them
  are consecutive blocks of one sender;
* if that sender's reads were full, they are the bytes of its `stdin` from the first number on;
* the last packages written, with the one in hand, are those taken. -/
theorem broadcast_contiguous (e : Endian) (W : Wild) (stations : ι → Station) (maxData : UInt64)
    (hp : ∀ i, 1 ≤ (stations i).params.psize) (h0 : ∀ i, (stations i).sessionId ≠ 0)
    (hinj : Function.Injective fun i => (stations i).sessionId)
    {es : List (BroadcastEvent ι)} {b : Broadcast ι}
    (h : Run (Guarded (Fires (Broadcast.step e W stations)) (Broadcast.Roomy e W stations))
      (Broadcast.init stations maxData) es b)
    (hbytes : ∀ i, (originals (b.senders i).log).length * (stations i).params.psize < 2 ^ 64) :
    (∀ p ps, (p :: ps).map Output.wrote <:+: b.receiver.log → ∃ i k,
      p.num.toNat = k * (stations i).params.psize ∧
      (p :: ps).map Receiver.Package.data <+:
        (fullReads (stations i).params.psize (b.senders i).reads).drop k ∧
      (FullWhileLeft (stations i).params.psize (b.senders i).reads →
        ((p :: ps).map Receiver.Package.data).flatten <+: (stations i).stdin.drop p.num.toNat)) ∧
    writes b.receiver.log <:+ b.receiver.state.written ++ b.receiver.state.inHand := by
  have hok : BroadcastOk stations b := h.inv (init_broadcastOk stations maxData)
    fun _ _ _ hI hst => step_broadcastOk hp h0 hI hst.1
  obtain ⟨payload, len, hlen, hpay⟩ := hok.streams hp hinj hbytes
  have hstreams : b.Streams stations payload fun ses num => ∃ i data,
      (stations i).sessionId = ses ∧ b.SentBy i num data :=
    fun i num data hs => ⟨⟨i, data, rfl, hs⟩, (hpay i num data hs).1⟩
  obtain ⟨evs, hrun⟩ := receiver_run hp h0 h hstreams
  refine ⟨fun p ps hps => ?_, run_delivers hrun⟩
  -- the sections of the receiver have the invariant of playback
  obtain ⟨q, hr, hq⟩ := (refines_simulation W).inv hrun (init_refines W maxData)
    (init_sectionsOk maxData : SectionsOk payload len _ _) fun _ _ _ => section_step
  rw [← hr.log] at hps
  have hplay := hq.playback (payload q.session) (len q.session) (hlen _).1 (hlen _).2
    fun _ => ⟨rfl, rfl⟩
  have hwrote : ∀ x ∈ p :: ps, ∃ i data, (stations i).sessionId = q.session ∧
      b.SentBy i x.num data ∧ x.data = data := by
    intro x hx
    obtain ⟨hrcv, hdata⟩ := hplay.wrote x (hps.subset (List.mem_map_of_mem hx))
    obtain ⟨-, i, data, hi, hs⟩ := hq.known x.num hrcv
    refine ⟨i, data, hi, hs, ?_⟩
    rw [hdata, ← hi, (hpay i x.num data hs).1]
  -- one sender has that session
  obtain ⟨i, data, hi, hs, -⟩ := hwrote p List.mem_cons_self
  have hpsize : (len q.session).toNat = (stations i).params.psize := by
    rw [← hi]
    exact (hpay i p.num data hs).2
  have hblock : ∀ x ∈ p :: ps, ∃ k, x.num.toNat = k * (stations i).params.psize ∧
      (fullReads (stations i).params.psize (b.senders i).reads)[k]? = some x.data := by
    intro x hx
    obtain ⟨j, data', hj, hs', hx'⟩ := hwrote x hx
    have hij : j = i := hinj (hj.trans hi.symm)
    subst hij
    obtain ⟨k, hk, hread, -⟩ := (hok.senders j).stream.read hs'
    rw [hx']
    exact ⟨k, ((hok.senders j).stream.block (hbytes j) hk).1, hread⟩
  have hchain : (p :: ps).IsChain fun x y => y.num.toNat = x.num.toNat + (stations i).params.psize := by
    have hc := hplay.adjacent.infix hps
    rw [List.isChain_map] at hc
    exact hc.imp fun x y hxy => by rw [← hpsize]; exact hxy x y rfl rfl
  obtain ⟨k, hk, -⟩ := hblock p List.mem_cons_self
  have hpre := consecutive (hp i) hchain hblock k fun x hx => by
    simp only [List.head?_cons, Option.mem_some_iff] at hx
    rw [← hx, hk]
  refine ⟨i, k, hk, hpre, fun hfull => ?_⟩
  have hlens : ∀ r ∈ fullReads (stations i).params.psize (b.senders i).reads,
      r.length = (stations i).params.psize := fun r hr => by simpa using (List.mem_filter.1 hr).2
  obtain ⟨rest, hrest⟩ : (fullReads (stations i).params.psize (b.senders i).reads).flatten <+:
      (stations i).stdin := by
    rw [(blocks_of_fullWhileLeft (hp i) hfull 0).1, ← (hok.senders i).stream.stdin]
    exact (List.take_prefix _ _).trans (List.prefix_append _ _)
  rw [hk, ← hrest, List.drop_append]
  refine List.IsPrefix.trans ?_ (List.prefix_append _ _)
  rw [← flatten_drop hlens k]
  exact hpre.flatten

/-- Blocks 0 and 1 are written one behind the other. -/
theorem broadcast_contiguous_two : ∃ es b,
    Run (Guarded (Fires (Broadcast.step .little ⟨fun _ _ => 0, fun _ _ => 0⟩ twoStations))
      (Broadcast.Roomy .little ⟨fun _ _ => 0, fun _ _ => 0⟩ twoStations))
      (Broadcast.init twoStations 2) es b ∧
    b.receiver.log = [.wrote ⟨[7], 0⟩, .wrote ⟨[8], 1⟩, .emptied] ∧ ∃ i k,
      [[7], [8]] <+: (fullReads (twoStations i).params.psize (b.senders i).reads).drop k := by
  have he : ((exec (guarded (Broadcast.step .little ⟨fun _ _ => 0, fun _ _ => 0⟩ twoStations)
      (Broadcast.Roomy .little ⟨fun _ _ => 0, fun _ _ => 0⟩ twoStations))
      (Broadcast.init twoStations 2) playsTwo).map fun b => (b.receiver.log,
        (originals (b.senders true).log).length, (originals (b.senders false).log).length)) =
      some ([.wrote ⟨[7], 0⟩, .wrote ⟨[8], 1⟩, .emptied], 2, 0) := by decide +kernel
  obtain ⟨b, hr, hb⟩ := Option.map_eq_some_iff.1 he
  simp only [Prod.mk.injEq] at hb
  obtain ⟨hlog, ht, hf⟩ := hb
  have hc := broadcast_contiguous .little _ twoStations 2 (by simp [twoStations])
    (by simp [twoStations]) (fun i j hij => by cases i <;> cases j <;> simp_all [twoStations])
    (exec_guarded hr) (fun i => by cases i <;> simp [twoStations, ht, hf])
  obtain ⟨i, k, -, hpre, -⟩ := hc.1 ⟨[7], 0⟩ [⟨[8], 1⟩] (by rw [hlog]; exact ⟨[], [.emptied], rfl⟩)
  exact ⟨_, b, exec_guarded hr, hlog, i, k, hpre⟩

end SikMimuw
