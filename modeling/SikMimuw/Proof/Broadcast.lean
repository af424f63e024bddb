import SikMimuw.Model.Broadcast
import SikMimuw.Proof.Sections
import SikMimuw.Proof.Stdin

/-!
# From `stdin` to `stdout`

What a receiver plays was read by a sender, whatever the network and the threads do.

* `BroadcastOk`: the invariant of the whole system. The receiver has received only what the senders
  sent, and has written or holds only blocks that they read.
* `broadcast_blocks`: every package with data is a block of a sender, in runs with evictions too.
-/

namespace SikMimuw

open Lts Receiver Transmitter

variable {ι : Type} {e : Endian} {W : Wild} {stations : ι → Station}
  {b b' : Broadcast ι} {i : ι}

/-! ### The senders -/

/-- The blocks sent are not forgotten. -/
theorem Transmitter.step_originals {params : Parameters} {s s' : Transmitter.State}
    {ev : Transmitter.Event} (h : Transmitter.step params s ev = some s') :
    originals s.log <+: originals s'.log := by
  cases ev <;> unfold Transmitter.step at h <;> dsimp only at h
  case signal =>
    cases h
    exact List.prefix_rfl
  case main =>
    rcases (stepMain_cases h).records.2 with hl | ⟨data, -, hl⟩
    · rw [hl]
    · rw [hl, originals_snoc_sent]
      exact List.prefix_append _ _
  case ctrl =>
    rw [(stepCtrl_cases h).frame.originals]
  case replay =>
    rw [(stepReplay_cases h).frame.originals]

/-- Block `k` is the full read number `k`. -/
theorem Transmitter.StreamOk.read {params : Parameters} {stdin : List UInt8} {s : Transmitter.State}
    (hs : Transmitter.StreamOk params stdin s) {p : Transmitter.Package} (hp : p ∈ originals s.log) :
    ∃ k, (originals s.log)[k]? = some p ∧ (fullReads params.psize s.reads)[k]? = some p.data ∧
      p.num = UInt64.ofNat (k * params.psize) := by
  obtain ⟨k, hk⟩ := List.mem_iff_getElem?.1 hp
  have hlt : k < (originals s.log).length := (List.getElem?_eq_some_iff.1 hk).1
  refine ⟨k, hk, ?_, hs.nums k p hk⟩
  rw [← hs.blocks, List.getElem?_append_left (by rwa [List.length_map]), List.getElem?_map, hk]
  rfl

/-! ### The invariant -/

/-- Sender `i` has sent the package. -/
def Broadcast.SentBy (b : Broadcast ι) (i : ι) (num : UInt64) (data : List UInt8) : Prop :=
  (⟨data, num⟩ : Transmitter.Package) ∈ originals (b.senders i).log

/-- The datagram is one of a sender. -/
def Broadcast.Sent (stations : ι → Station) (b : Broadcast ι) (d : Datagram) : Prop :=
  ∃ i, d.session = (stations i).sessionId ∧ b.SentBy i d.num d.data

/-- **The invariant**: the senders keep theirs, what the receiver received was sent, and what it
took has data and was sent. -/
structure BroadcastOk (stations : ι → Station) (b : Broadcast ι) : Prop where
  senders : ∀ i, SenderOk (stations i).params (stations i).stdin (b.senders i)
  apart : ∃ received, Apart ⟨b.receiver.state, received⟩ ∧ ∀ d ∈ received, b.Sent stations d
  printing : Printing b.receiver.state
  taken : ∀ p ∈ b.receiver.state.written ++ b.receiver.state.inHand, p.data ≠ [] ∧
    ∃ i, b.SentBy i p.num p.data

theorem init_broadcastOk (stations : ι → Station) (maxData : UInt64) :
    BroadcastOk stations (Broadcast.init stations maxData) where
  senders i := init_senderOk _ _
  apart := ⟨[], init_apart maxData, by simp⟩
  printing := init_printing maxData
  taken := by simp [Broadcast.init, Traced.init, Receiver.State.init, State.inHand]

variable [DecidableEq ι]

/-- A step is one of a sender, or one of the receiver. -/
theorem Broadcast.step_cases {event : BroadcastEvent ι} (h : b.step e W stations event = some b') :
    (∃ i ev s, Transmitter.step (stations i).params (b.senders i) ev = some s ∧
      b' = { b with senders := Function.update b.senders i s }) ∨
    ∃ ev t, b.atReceiver e stations event = some ev ∧ b.receiver.step W ev = some t ∧
      b' = { b with receiver := t } := by
  unfold Broadcast.step at h
  cases event with
  | sender i ev =>
    obtain ⟨s, hs, rfl⟩ := Option.map_eq_some_iff.1 h
    exact Or.inl ⟨i, ev, s, hs, rfl⟩
  | deliver | receiver =>
    obtain ⟨ev, hev, h⟩ := Option.bind_eq_some_iff.1 h
    obtain ⟨t, ht, rfl⟩ := Option.map_eq_some_iff.1 h
    exact Or.inr ⟨ev, t, hev, ht, rfl⟩

/-- A sender takes a step: nothing that was sent is forgotten. -/
theorem BroadcastOk.sender (hp : ∀ i, 1 ≤ (stations i).params.psize) (h : BroadcastOk stations b)
    {ev : Transmitter.Event} {s : Transmitter.State}
    (hst : Transmitter.step (stations i).params (b.senders i) ev = some s) :
    BroadcastOk stations { b with senders := Function.update b.senders i s } := by
  have hmono : ∀ {j num data}, b.SentBy j num data →
      Broadcast.SentBy { b with senders := Function.update b.senders i s } j num data := by
    intro j num data hsent
    unfold Broadcast.SentBy
    dsimp only
    by_cases hj : j = i
    · subst hj
      rw [Function.update_self]
      exact (Transmitter.step_originals hst).subset hsent
    · rw [Function.update_of_ne hj]
      exact hsent
  obtain ⟨received, ha, hsent⟩ := h.apart
  refine ⟨fun j => ?_, ⟨received, ha, fun d hd => ?_⟩, h.printing, fun p hp => ?_⟩
  · by_cases hj : j = i
    · subst hj
      dsimp only
      rw [Function.update_self]
      exact step_senderOk (hp j) (h.senders j) hst
    · dsimp only
      rw [Function.update_of_ne hj]
      exact h.senders j
  · obtain ⟨j, hj, hs⟩ := hsent d hd
    exact ⟨j, hj, hmono hs⟩
  · obtain ⟨hne, j, hs⟩ := h.taken p hp
    exact ⟨hne, j, hmono hs⟩

omit [DecidableEq ι] in
/-- A datagram that comes was sent. -/
theorem BroadcastOk.delivered (h : BroadcastOk stations b) {event : BroadcastEvent ι} {leave : Bool}
    {d : Datagram} (hev : b.atReceiver e stations event = some (.data leave (some d))) :
    b.Sent stations d := by
  cases event with
  | sender => cases hev
  | receiver ev =>
    unfold Broadcast.atReceiver at hev
    dsimp only at hev
    split at hev
    · cases hev
    · rename_i hr
      rw [Option.some.injEq] at hev
      subst hev
      exact absurd rfl hr
  | deliver leave' i datagram =>
    unfold Broadcast.atReceiver at hev
    dsimp only at hev
    split at hev
    · rename_i hm
      obtain ⟨d', hd', heq⟩ := Option.map_eq_some_iff.1 hev
      obtain ⟨q, hq, rfl⟩ := (h.senders i).repeats.datagram hm
      rw [Receiver.decode_sendMcast, Option.some.injEq] at hd'
      subst hd'
      simp only [Receiver.Event.data.injEq, Option.some.injEq] at heq
      obtain ⟨-, rfl⟩ := heq
      exact ⟨i, rfl, hq⟩
    · cases hev

omit [DecidableEq ι] in
/-- What a printing thread takes has data, and is in the buffer. -/
theorem mem_writes_printed {s : Receiver.State} {j : ℕ} {p : Receiver.Package}
    (h : p ∈ writes (s.printed j)) : p ∈ s.buf.packages.values ∧ p.data ≠ [] := by
  unfold State.printed at h
  split at h
  · split at h
    · cases h
    · rw [writes_cons_emptied] at h
      cases h
  · split at h
    · rename_i q b' hq
      split at h
      · rw [writes_cons_emptied] at h
        cases h
      · rw [writes_cons_emptied] at h
        simp only [writes, List.filterMap_cons, List.filterMap_nil, List.mem_singleton] at h
        subst h
        exact ⟨List.mem_of_mem_head? (pop_eq_some.1 hq).1, ‹_›⟩
    · cases h
  · cases h

omit [DecidableEq ι] in
theorem mem_history {t : Tracked} {ev : Receiver.Event} {d : Datagram} (h : d ∈ t.history ev) :
    d ∈ t.received ∨ ∃ leave, ev = .data leave (some d) := by
  unfold Tracked.history at h
  rcases ev with _ | _ | ⟨leave, _ | d'⟩ | _ | _
  case data.some =>
    dsimp only at h
    split at h
    · rw [List.mem_append, List.mem_singleton] at h
      exact h.imp id fun hd => ⟨leave, by rw [hd]⟩
    · exact Or.inl h
  case run => cases h
  all_goals exact Or.inl h

omit [DecidableEq ι] in
/-- **The receiver** takes a step. -/
theorem BroadcastOk.receive (h0 : ∀ i, (stations i).sessionId ≠ 0) (h : BroadcastOk stations b)
    {event : BroadcastEvent ι} {ev : Receiver.Event} {t : Traced}
    (hev : b.atReceiver e stations event = some ev) (hst : b.receiver.step W ev = some t) :
    BroadcastOk stations { b with receiver := t } := by
  obtain ⟨s', hs, rfl⟩ := Option.map_eq_some_iff.1 hst
  obtain ⟨received, ha, hsent⟩ := h.apart
  have hnz : NonZero ⟨b.receiver.state, received⟩ ev := by
    rcases ev with _ | _ | ⟨leave, _ | d⟩ | _ | _ <;> try trivial
    obtain ⟨i, hi, -⟩ := h.delivered hev
    show d.session ≠ 0
    rw [hi]
    exact h0 i
  have htr : trackedStep W ⟨b.receiver.state, received⟩ ev =
      some ⟨s', Tracked.history ⟨b.receiver.state, received⟩ ev⟩ := by
    rw [trackedStep, hs]
    rfl
  refine ⟨h.senders, ⟨Tracked.history ⟨b.receiver.state, received⟩ ev, ?_, ?_⟩, ?_, ?_⟩
  · show Apart ⟨(b.receiver.next W s' ev).state, _⟩
    rw [Traced.next_state]
    exact step_apart ha ⟨htr, hnz⟩
  · intro d hd
    rcases mem_history hd with hd | ⟨leave, rfl⟩
    · exact hsent d hd
    · exact h.delivered hev
  · show Printing (b.receiver.next W s' ev).state
    rw [Traced.next_state]
    exact step_printing h.printing hs
  · show ∀ p ∈ (b.receiver.next W s' ev).state.written ++ (b.receiver.next W s' ev).state.inHand, _
    rw [Traced.next_state]
    intro p hp
    cases Receiver.step_cases hs with
    | signal | run => exact h.taken p hp
    | data hd =>
      rw [hd.inHand.1, hd.inHand.2] at hp
      exact h.taken p hp
    | requester hr =>
      rw [hr.inHand.1, hr.inHand.2] at hp
      exact h.taken p hp
    | printer hpr =>
      rw [h.printing.delivered hpr, List.mem_append] at hp
      rcases hp with hp | hp
      · exact h.taken p hp
      · -- it comes from the buffer, so from a datagram received
        obtain ⟨hmem, hne⟩ := mem_writes_printed hp
        obtain ⟨d, hd, -, hnum, hdata⟩ := ha.sourced.bearing p hmem hne
        obtain ⟨i, -, hs⟩ := hsent d hd
        rw [hnum, hdata] at hs
        exact ⟨hne, i, hs⟩

/-- **One step** of the whole system. -/
theorem step_broadcastOk (hp : ∀ i, 1 ≤ (stations i).params.psize)
    (h0 : ∀ i, (stations i).sessionId ≠ 0) (h : BroadcastOk stations b) {event : BroadcastEvent ι}
    (hst : b.step e W stations event = some b') : BroadcastOk stations b' := by
  rcases Broadcast.step_cases hst with ⟨i, ev, s, hs, rfl⟩ | ⟨ev, t, hev, ht, rfl⟩
  · exact h.sender hp hs
  · exact h.receive h0 hev ht

/-- The package is block `k` that sender `i` has read: a piece of its `stdin`, as long as a block,
under the number that the sender gave it. -/
structure Broadcast.Block (stations : ι → Station) (b : Broadcast ι) (i : ι) (k : ℕ)
    (p : Receiver.Package) : Prop where
  read : (fullReads (stations i).params.psize (b.senders i).reads)[k]? = some p.data
  num : p.num = UInt64.ofNat (k * (stations i).params.psize)
  length : p.data.length = (stations i).params.psize
  stdin : p.data <:+: (stations i).stdin

omit [DecidableEq ι] in
theorem BroadcastOk.block (h : BroadcastOk stations b) {p : Receiver.Package}
    (hs : b.SentBy i p.num p.data) : ∃ k, b.Block stations i k p := by
  obtain ⟨k, -, hread, hnum⟩ := (h.senders i).stream.read hs
  obtain ⟨hm, hlen⟩ := List.mem_filter.1 (List.mem_of_getElem? hread)
  refine ⟨k, hread, hnum, by simpa using hlen, ?_⟩
  rw [← (h.senders i).stream.stdin]
  exact (List.infix_of_mem_flatten hm).trans (List.prefix_append _ _).isInfix

/-- **What a receiver has was read by a sender.** In every run of any number of senders, with session
ids other than 0 and packets that are not empty, and a receiver, with a network that loses, repeats,
delays and reorders datagrams:

* every package with data in the buffer is a block that a sender of the running session has read
  from its `stdin`, under the number that this sender gave it;
* everything that was written, or is about to be, is a block of a sender.

The receiver may evict packages. A package that comes for one of these leaves the list as it is. -/
theorem broadcast_blocks (e : Endian) (W : Wild) (stations : ι → Station) (maxData : UInt64)
    (hp : ∀ i, 1 ≤ (stations i).params.psize) (h0 : ∀ i, (stations i).sessionId ≠ 0)
    {es : List (BroadcastEvent ι)} {b : Broadcast ι}
    (h : Run (Fires (Broadcast.step e W stations)) (Broadcast.init stations maxData) es b) :
    (∀ p ∈ b.receiver.state.buf.packages.values, p.data ≠ [] →
      ∃ i k, (stations i).sessionId = b.receiver.state.session ∧ b.Block stations i k p) ∧
    ∀ p ∈ b.receiver.state.written ++ b.receiver.state.inHand, ∃ i k, b.Block stations i k p := by
  have hok : BroadcastOk stations b :=
    h.inv (init_broadcastOk stations maxData) fun _ _ _ hI hst => step_broadcastOk hp h0 hI hst
  refine ⟨fun p hm hne => ?_, fun p hm => ?_⟩
  · obtain ⟨received, ha, hsent⟩ := hok.apart
    obtain ⟨d, hd, hses, hnum, hdata⟩ := ha.sourced.bearing p hm hne
    obtain ⟨i, hi, hs⟩ := hsent d hd
    rw [hnum, hdata] at hs
    obtain ⟨k, hk⟩ := hok.block hs
    exact ⟨i, k, by rw [← hi]; exact hses, hk⟩
  · obtain ⟨-, i, hs⟩ := hok.taken p hm
    obtain ⟨k, hk⟩ := hok.block hs
    exact ⟨i, k, hk⟩

/-- Two senders with blocks of one byte; the first reads `[7, 8]`. -/
def twoStations : Bool → Station
  | true => ⟨⟨[], 0, 1, 4, []⟩, 1, [7, 8]⟩
  | false => ⟨⟨[], 0, 1, 4, []⟩, 2, [9]⟩

/-- The first sender sends its two blocks, and the receiver plays them. -/
def playsTwo : List (BroadcastEvent Bool) :=
  List.replicate 16 (.sender true (.main (some 1))) ++
    [.receiver .run, .receiver (.data false none),
      .deliver false true (sendMcast .little 1 0 [7])] ++
    List.replicate 10 (.receiver (.data false none)) ++
    [.deliver false true (sendMcast .little 1 1 [8])] ++
    List.replicate 7 (.receiver (.data false none)) ++
    List.replicate 10 (.receiver (.printer 0))

/-- Block 1 was written. -/
theorem broadcast_blocks_two : ∃ es b,
    Run (Fires (Broadcast.step .little ⟨fun _ _ => 0, fun _ _ => 0⟩ twoStations))
      (Broadcast.init twoStations 2) es b ∧
    ⟨[8], 1⟩ ∈ b.receiver.state.written ∧ ∃ i k, b.Block twoStations i k ⟨[8], 1⟩ := by
  have he : ((exec (Broadcast.step .little ⟨fun _ _ => 0, fun _ _ => 0⟩ twoStations)
      (Broadcast.init twoStations 2) playsTwo).map fun b => b.receiver.state.written) =
      some [⟨[7], 0⟩, ⟨[8], 1⟩] := by decide +kernel
  obtain ⟨b, hr, hb⟩ := Option.map_eq_some_iff.1 he
  have hc := broadcast_blocks .little _ twoStations 2 (by simp [twoStations]) (by simp [twoStations])
    (exec_run hr)
  exact ⟨_, b, exec_run hr, by simp [hb], hc.2 ⟨[8], 1⟩ (by simp [hb])⟩

end SikMimuw
