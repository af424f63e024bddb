import SikMimuw.Lib.Run
import SikMimuw.Proof.Buffor
import SikMimuw.Proof.Receiver

/-!
# Sessions never mix

`data_loop` keeps the datagrams of the session it opened, drops the older ones and leaves its
loop at the first newer one. `Tracked` is the receiver with the datagrams that the running
`data_loop` has received. No mutex is needed: the other threads only take packages away.

* `Sourced`: every package with data satisfies `P`. Fills need `Keyed` for that, which says which
  package a key designates.
* `Apart`: the invariant, with `P` the packets received in the session.
* `ends_emptied`: from the break at line 319 on, the steps of `data_loop` lead to its end, and it
  gets there with an empty buffer.
* `sessions_apart`: the three of them in every reachable state.
-/

namespace SikMimuw.Receiver

open Lts

variable {W : Wild} {b b' : Buffer} {c : Call} {num : UInt64} {data : List UInt8}
  {P Q : UInt64 → List UInt8 → Prop} {s s' u : State}

/-- `packages` and `set` are empty. -/
def Buffer.Empty (b : Buffer) : Prop := b.packages.values = [] ∧ b.set.entries = []

/-- **Every package with data satisfies `P`.** -/
structure Sourced (P : UInt64 → List UInt8 → Prop) (b : Buffer) : Prop where
  bearing : ∀ p ∈ b.packages.values, p.data ≠ [] → P p.num p.data
  keyed : Keyed b

theorem Sourced.mono (h : Sourced P b) (hPQ : ∀ num data, P num data → Q num data) : Sourced Q b :=
  ⟨fun p hp hd => hPQ _ _ (h.bearing p hp hd), h.keyed⟩

theorem Sourced.of_empty (hk : Keyed b) (he : b.Empty) : Sourced P b :=
  ⟨fun p hp => by simp [he.1] at hp, hk⟩

theorem Sourced.reset (b : Buffer) : Sourced P b.reset :=
  ⟨fun _ hp => (by cases hp), reset_keyed b⟩

theorem Sourced.append (h : Sourced P b) (hP : P num data) : Sourced P (b.append num data) := by
  refine ⟨?_, h.keyed.append num data⟩
  intro p hp hd
  change p ∈ (b.packages.pushBack _).values at hp
  rw [NodeList.values_pushBack, List.mem_append, List.mem_singleton] at hp
  rcases hp with hp | rfl
  · exact h.bearing p hp hd
  · exact hP

theorem Sourced.appendDummy (h : Sourced P b) (num : UInt64) : Sourced P (b.appendDummy num) := by
  refine ⟨?_, h.keyed.appendDummy num⟩
  intro p hp hd
  rw [Buffer.appendDummy_values, List.mem_append, List.mem_singleton] at hp
  rcases hp with hp | rfl
  · exact h.bearing p hp hd
  · exact absurd rfl hd

theorem Sourced.popFront (h : Sourced P b) {set : OrdMap UInt64 ℕ}
    (hset : ∀ e ∈ set.entries, e ∈ b.set.entries) :
    Sourced P { b with packages := b.packages.popFront, set := set } := by
  refine ⟨?_, h.keyed.popFront hset⟩
  intro p hp hd
  simp only [NodeList.values_popFront] at hp
  exact h.bearing p (List.mem_of_mem_tail hp) hd

/-- A packet that satisfies `P` fills the hole of its number. -/
theorem Sourced.fill (h : Sourced P b) {it : ℕ} (hit : (num, it) ∈ b.set.entries) (hP : P num data) :
    Sourced P (b.fill it num data) := by
  refine ⟨?_, h.keyed.fill it num data⟩
  intro p hp hd
  rcases NodeList.mem_modify hp with ⟨q, hq, rfl⟩ | hp
  · -- the key's iterator designates a package of that number
    have hn := h.keyed.num _ _ _ hit hq
    show P q.num data
    rw [hn]
    exact hP
  · exact h.bearing p hp hd

theorem Sourced.enter (h : Sourced P b) (hP : P num data) : Sourced P (b.enter num data).buf := by
  have hc := enter_case b num data
  generalize b.enter num data = c at hc
  cases hc with
  | fill hit => exact h.fill hit hP
  | first =>
    have h' : Sourced P { b with size := b.maxData / UInt64.ofNat data.length } :=
      ⟨h.bearing, h.keyed.num, h.keyed.old⟩
    exact h'.append hP
  | loop => exact h

theorem Sourced.pass (h : Sourced P c.buf) (hP : P num data) (hd : c.done = false) :
    Sourced P (c.pass W num data).buf := by
  have hc := pass_case W num data hd
  generalize Call.pass W num data c = c' at hc
  cases hc with
  | stop => exact h
  | append => exact h.append hP
  | dummy => exact h.appendDummy _
  | evict _ _ _ _ _ he =>
    subst he
    exact (h.appendDummy _).popFront mem_of_mem_eraseBelow

theorem Sourced.print (h : Sourced P b) (hb : PrintBuf b b') : Sourced P b' := by
  cases hb with
  | keep => exact h
  | pop hp =>
    obtain ⟨-, rfl⟩ := pop_eq_some.1 hp
    exact h.popFront fun _ he => he
  | reset => exact .reset b

theorem PrintBuf.mem (hb : PrintBuf b b') {p : Package} (hp : p ∈ b'.packages.values) :
    p ∈ b.packages.values := by
  cases hb with
  | keep => exact hp
  | pop hq =>
    rw [(pop_eq_some.1 hq).2] at hp
    simp only [NodeList.values_popFront] at hp
    exact List.mem_of_mem_tail hp
  | reset => cases hp

theorem Buffer.Empty.print (h : b.Empty) (hb : PrintBuf b b') : b'.Empty := by
  cases hb with
  | keep => exact h
  | pop hp =>
    have hq := (pop_eq_some.1 hp).1
    rw [h.1] at hq
    cases hq
  | reset => exact ⟨rfl, rfl⟩

/-! ### The datagrams of the session -/

/-- The receiver, with the datagrams that the running `data_loop` has received. -/
structure Tracked where
  state : State
  received : List Datagram

variable {t t' : Tracked}

/-- The datagrams received after event `e`. A `data_loop` starts with none. -/
def Tracked.history (t : Tracked) : Event → List Datagram
  | .run => []
  | .data _ (some d) =>
    match t.state.data with
    | .recv => t.received ++ [d]
    | _ => t.received
  | _ => t.received

def trackedStep (W : Wild) (t : Tracked) (e : Event) : Option Tracked :=
  (step W t.state e).map fun s => ⟨s, t.history e⟩

def Tracked.init (maxData : UInt64) : Tracked := ⟨State.init maxData, []⟩

/-- A datagram that comes has a session. -/
def NonZero (_ : Tracked) : Event → Prop
  | .data _ (some d) => d.session ≠ 0
  | _ => True

instance instDecidableNonZero (t : Tracked) (e : Event) : Decidable (NonZero t e) :=
  match e with
  | .data _ (some d) => inferInstanceAs (Decidable (d.session ≠ 0))
  | .data _ none | .signal | .run | .printer _ | .requester _ => .isTrue trivial

/-- A packet of `session` among the datagrams received. -/
def FromSession (received : List Datagram) (session num : UInt64) (data : List UInt8) : Prop :=
  ∃ d ∈ received, d.session = session ∧ d.num = num ∧ d.data = data

/-- The packet that `data_loop` has in hand. -/
def DataPc.packet : DataPc → Option (UInt64 × List UInt8)
  | .lockAdd num data | .add num data | .adding num data => some (num, data)
  | _ => none

/-- The steps that `data_loop` has taken since it left its loop. -/
def DataPc.afterLoop : DataPc → Option ℕ
  | .lockReset => some 0
  | .reset => some 1
  | .unlockReset => some 2
  | .setStop => some 3
  | .joinPrinting => some 4
  | .joinRequesting => some 5
  | .idle => some 6
  | _ => none

/-- `data_loop` has called `reset` at line 344, and the next one has not started. -/
def DataPc.AfterReset (pc : DataPc) : Prop := ∃ k, pc.afterLoop = some k ∧ 2 ≤ k

/-- **The invariant**: what is in the buffer or in hand comes from the session, and before the
first datagram and after the last there is nothing. -/
structure Apart (t : Tracked) : Prop where
  nonzero : ∀ d ∈ t.received, d.session ≠ 0
  sourced : Sourced (FromSession t.received t.state.session) t.state.buf
  inHand : ∀ num data, t.state.data.packet = some (num, data) →
    FromSession t.received t.state.session num data
  emptied : t.state.session = 0 ∨ t.state.data.AfterReset → t.state.buf.Empty

theorem init_apart (maxData : UInt64) : Apart (Tracked.init maxData) where
  nonzero := by simp [Tracked.init]
  sourced := ⟨fun _ hp => (by cases hp), init_keyed maxData⟩
  inHand := by simp [Tracked.init, State.init, DataPc.packet]
  emptied := fun _ => ⟨rfl, rfl⟩

/-- A step that receives nothing. -/
theorem Apart.keep (h : Apart t) (hses : s'.session = t.state.session)
    (hbuf : Sourced (FromSession t.received t.state.session) s'.buf)
    (hpk : ∀ pk, s'.data.packet = some pk → t.state.data.packet = some pk)
    (hem : t.state.session = 0 ∨ s'.data.AfterReset → s'.buf.Empty) : Apart ⟨s', t.received⟩ where
  nonzero := h.nonzero
  sourced := by rw [hses]; exact hbuf
  inHand := by
    intro num data hd
    rw [hses]
    exact h.inHand num data (hpk _ hd)
  emptied := by rw [hses]; exact hem

/-- A step that leaves the buffer alone. -/
theorem Apart.move (h : Apart t) (hses : s'.session = t.state.session) (hbuf : s'.buf = t.state.buf)
    (hpk : ∀ pk, s'.data.packet = some pk → t.state.data.packet = some pk)
    (har : s'.data.AfterReset → t.state.data.AfterReset) : Apart ⟨s', t.received⟩ := by
  refine h.keep hses ?_ hpk fun hs => ?_
  · rw [hbuf]
    exact h.sourced
  · rw [hbuf]
    exact h.emptied (hs.imp_right har)

/-- The packet in hand goes into the buffer. -/
theorem Apart.inCall (h : Apart t) (hpk : t.state.data.packet = some (num, data))
    (hbuf : Sourced (FromSession t.received t.state.session) c.buf) :
    Apart ⟨t.state.inCall num data c, t.received⟩ := by
  -- a session with a packet is not 0
  have h0 : t.state.session ≠ 0 := by
    obtain ⟨d, hd, hses, -, -⟩ := h.inHand num data hpk
    rw [← hses]
    exact h.nonzero d hd
  refine h.keep rfl hbuf ?_ ?_
  · intro pk hq
    unfold State.inCall at hq
    dsimp only at hq
    split at hq
    · cases hq
    · rw [hpk]
      exact hq
  · rintro (h' | ⟨k, hk, -⟩)
    · exact absurd h' h0
    · unfold State.inCall at hk
      dsimp only at hk
      split at hk <;> cases hk

/-- A datagram comes, and is stored or not. -/
theorem Apart.receive (h : Apart t) {d : Datagram} {pc : DataPc} {session : UInt64} (hd : d.session ≠ 0)
    (hses : t.state.session = 0 ∨ session = t.state.session) (h0 : session ≠ 0)
    (hpk : pc.packet = some (d.num, d.data) ∧ d.session = session ∨ pc.packet = none)
    (hpc : ¬ pc.AfterReset) :
    Apart ⟨{ t.state with session := session, data := pc }, t.received ++ [d]⟩ where
  nonzero := by
    intro d' hd'
    rw [List.mem_append, List.mem_singleton] at hd'
    rcases hd' with hd' | rfl
    · exact h.nonzero d' hd'
    · exact hd
  sourced := by
    rcases hses with hses | rfl
    · exact .of_empty h.sourced.keyed (h.emptied (Or.inl hses))
    · refine h.sourced.mono fun num data ⟨d', hd', hr⟩ => ⟨d', ?_, hr⟩
      exact List.mem_append_left _ hd'
  inHand := by
    intro num data hnd
    change pc.packet = _ at hnd
    rcases hpk with ⟨hpk, hds⟩ | hpk
    · rw [hpk, Option.some.injEq, Prod.mk.injEq] at hnd
      exact ⟨d, by simp, hds, hnd.1, hnd.2⟩
    · rw [hpk] at hnd
      cases hnd
  emptied := by
    rintro (h' | h')
    · exact absurd h' h0
    · exact absurd h' hpc

/-- **`data_loop`** keeps the sessions apart. -/
theorem Apart.dataLoop {leave : Bool} {recv : Option Datagram} (h : Apart t)
    (hnz : NonZero t (.data leave recv)) (hst : DataStep W t.state leave recv s') :
    Apart ⟨s', t.history (.data leave recv)⟩ := by
  -- away from line 308 no datagram is received
  have hno : t.state.data ≠ .recv → t.history (.data leave recv) = t.received := by
    intro hne
    cases recv with
    | none => rfl
    | some d =>
      unfold Tracked.history
      dsimp only
      split
      · exact absurd ‹_› hne
      · rfl
  have hyes : t.state.data = .recv → ∀ d, recv = some d →
      t.history (.data leave recv) = t.received ++ [d] := by
    rintro hpc d rfl
    simp [Tracked.history, hpc]
  cases hst with
  | nothing hpc hr =>
    subst hr
    exact h.move rfl rfl (by simp [DataPc.packet]) (by simp [DataPc.AfterReset, DataPc.afterLoop])
  | opens hpc hr h0 =>
    rw [hyes hpc _ hr]
    subst hr
    exact h.receive hnz (Or.inl h0) hnz (Or.inl ⟨rfl, rfl⟩) (by simp [DataPc.AfterReset, DataPc.afterLoop])
  | older hpc hr h0 | newer hpc hr h0 =>
    rw [hyes hpc _ hr]
    subst hr
    exact h.receive hnz (Or.inr rfl) h0 (Or.inr rfl) (by simp [DataPc.AfterReset, DataPc.afterLoop])
  | stores hpc hr h0 heq =>
    rw [hyes hpc _ hr]
    subst hr
    exact h.receive hnz (Or.inr rfl) h0 (Or.inl ⟨rfl, heq⟩)
      (by simp [DataPc.AfterReset, DataPc.afterLoop])
  | add hpc =>
    rw [hno (by simp [hpc])]
    have hpk := congrArg DataPc.packet hpc
    exact h.inCall hpk (h.sourced.enter (h.inHand _ _ hpk))
  | adding hpc =>
    rw [hno (by simp [hpc])]
    have hpk := congrArg DataPc.packet hpc
    exact h.inCall hpk (h.sourced.pass (c := ⟨_, [], false⟩) (h.inHand _ _ hpk) rfl)
  | lockAdd hpc =>
    rw [hno (by simp [hpc])]
    exact h.move rfl rfl (by simp [hpc, DataPc.packet]) (by simp [DataPc.AfterReset, DataPc.afterLoop])
  | check hpc =>
    rw [hno (by simp [hpc])]
    exact h.move (by simp) (by simp) (by simp [DataPc.packet])
      (by simp [DataPc.AfterReset, DataPc.afterLoop])
  | leaves hpc | stays hpc | unlockAdd hpc | lockCheck hpc | unlockCheck hpc | keepPrinting hpc
  | closePrinting hpc | keepRequesting hpc | closeRequesting hpc | again hpc | ends hpc
  | lockReset hpc =>
    rw [hno (by simp [hpc])]
    exact h.move rfl rfl (by simp [DataPc.packet]) (by simp [DataPc.AfterReset, DataPc.afterLoop])
  | reset hpc =>
    rw [hno (by simp [hpc])]
    exact h.keep rfl (.reset _) (by simp [DataPc.packet]) fun _ => ⟨rfl, rfl⟩
  -- the steps after line 344
  | unlockReset hpc | setStop hpc | noPrinting hpc | joinPrinting hpc | noRequesting hpc
  | joinRequesting hpc =>
    rw [hno (by simp [hpc])]
    exact h.move rfl rfl (by simp [DataPc.packet]) (by simp [hpc, DataPc.AfterReset, DataPc.afterLoop])

/-- **One step** keeps the sessions apart. -/
theorem step_apart {e : Event} (h : Apart t) (hst : Guarded (Fires (trackedStep W)) NonZero t e t') :
    Apart t' := by
  obtain ⟨hst, hnz⟩ := hst
  obtain ⟨s', hs, rfl⟩ := Option.map_eq_some_iff.1 hst
  cases step_cases hs with
  | signal => exact h.move rfl rfl (fun _ hp => hp) id
  | run hpc =>
    have he := h.emptied (Or.inr ⟨6, by rw [hpc]; rfl, by omega⟩)
    exact ⟨by simp [Tracked.history], .of_empty h.sourced.keyed he, by simp [DataPc.packet], fun _ => he⟩
  | data hd => exact h.dataLoop hnz hd
  | printer hp =>
    have hf := hp.frame
    refine h.keep hf.session (h.sourced.print hf.buf) (by rw [hf.data]; exact fun _ hq => hq) ?_
    rw [hf.data]
    exact fun hs => (h.emptied hs).print hf.buf
  | requester hr =>
    have hf := hr.frame
    exact h.move hf.session hf.buf (by rw [hf.data]; exact fun _ hq => hq) (by rw [hf.data]; exact id)

/-! ### The end of a session -/

/-- `data_loop` waits for `mutex_buffor`, or for a printing thread that it joins. -/
def State.Waits (s : State) : Prop :=
  s.data = .lockReset ∧ s.mutexBuffor ≠ none ∨
    (s.data = .joinPrinting ∧ s.printing ∨ s.data = .joinRequesting ∧ s.requesting) ∧
      s.printingEnded = false

/-- `data_loop` has taken `n` steps since it left its loop at state `s`: it is not at its end, has
stored nothing, emptied the buffer in the first two, and goes on unless it waits. -/
structure Ending (W : Wild) (s u : State) (n : ℕ) : Prop where
  count : u.data.afterLoop = some n
  ongoing : n < 6
  stored : ∀ p ∈ u.buf.packages.values, p ∈ s.buf.packages.values
  emptied : 2 ≤ n → u.buf.Empty
  progress : u.Waits ∨ ∀ leave recv, ∃ u', step W u (.data leave recv) = some u'

def Event.ofData : Event → Bool
  | .data .. => true
  | _ => false

/-- **`data_loop` ends with an empty buffer** before it stores anything: whatever the threads do
from `s` on, it is on its way to its end, or it has been there. -/
def EndsEmptied (W : Wild) (s : State) : Prop :=
  ∀ es u, Run (Fires (step W)) s es u →
    Ending W s u (es.countP Event.ofData) ∨
      ∃ es₁ es₂ v, es = es₁ ++ es₂ ∧ Run (Fires (step W)) s es₁ v ∧ v.data = .idle ∧ v.buf.Empty ∧
        Run (Fires (step W)) v es₂ u

theorem waits_or_goes_on {n : ℕ} (hc : u.data.afterLoop = some n) (hn : n < 6) :
    u.Waits ∨ ∀ leave recv, ∃ u', step W u (.data leave recv) = some u' := by
  rw [or_iff_not_imp_left]
  intro hw leave recv
  show ∃ u', stepData W u leave recv = some u'
  unfold stepData
  cases hd : u.data <;> rw [hd] at hc <;> dsimp only
  case lockReset =>
    have hfree : u.mutexBuffor = none := by
      by_contra hm
      exact hw (Or.inl ⟨hd, hm⟩)
    exact ⟨_, if_pos hfree⟩
  case reset | setStop => exact ⟨_, rfl⟩
  case unlockReset => exact ⟨_, rfl⟩
  case joinPrinting =>
    by_cases hp : u.printing = true
    · have he : u.printingEnded = true := by
        by_contra he
        exact hw (Or.inr ⟨Or.inl ⟨hd, hp⟩, Bool.not_eq_true _ ▸ he⟩)
      rw [if_pos hp, if_pos he]
      exact ⟨_, rfl⟩
    · rw [if_neg hp]
      exact ⟨_, rfl⟩
  case joinRequesting =>
    by_cases hr : u.requesting = true
    · have he : u.printingEnded = true := by
        by_contra he
        exact hw (Or.inr ⟨Or.inr ⟨hd, hr⟩, Bool.not_eq_true _ ▸ he⟩)
      rw [if_pos hr, if_pos he]
      exact ⟨_, rfl⟩
    · rw [if_neg hr]
      exact ⟨_, rfl⟩
  case idle =>
    rw [DataPc.afterLoop, Option.some.injEq] at hc
    omega
  all_goals cases hc

theorem ending_of_newer (hpc : u.data = .lockReset) : Ending W u u 0 where
  count := by rw [hpc]; rfl
  ongoing := by omega
  stored := fun _ hp => hp
  emptied := by omega
  progress := waits_or_goes_on (n := 0) (by rw [hpc]; rfl) (by omega)

/-- Another thread takes a step. -/
theorem Ending.other {n : ℕ} (h : Ending W s u n) (hd : s'.data = u.data) (hb : PrintBuf u.buf s'.buf) :
    Ending W s s' n where
  count := by rw [hd]; exact h.count
  ongoing := h.ongoing
  stored := fun p hp => h.stored p (hb.mem hp)
  emptied := fun hn => (h.emptied hn).print hb
  progress := waits_or_goes_on (by rw [hd]; exact h.count) h.ongoing

/-- `data_loop` takes a step. -/
theorem Ending.own {n : ℕ} {leave : Bool} {recv : Option Datagram} (h : Ending W s u n)
    (hst : DataStep W u leave recv s') : Ending W s s' (n + 1) ∨ s'.data = .idle ∧ s'.buf.Empty := by
  have hc := h.count
  cases hst with
  | lockReset hpc =>
    rw [hpc, DataPc.afterLoop, Option.some.injEq] at hc
    subst hc
    exact Or.inl ⟨rfl, by omega, h.stored, by omega, waits_or_goes_on rfl (by omega)⟩
  | reset hpc =>
    rw [hpc, DataPc.afterLoop, Option.some.injEq] at hc
    subst hc
    exact Or.inl ⟨rfl, by omega, fun _ hp => (by cases hp), fun _ => ⟨rfl, rfl⟩,
      waits_or_goes_on rfl (by omega)⟩
  | unlockReset hpc | setStop hpc | noPrinting hpc | joinPrinting hpc =>
    rw [hpc, DataPc.afterLoop, Option.some.injEq] at hc
    subst hc
    exact Or.inl ⟨rfl, by omega, h.stored, fun _ => h.emptied (by omega),
      waits_or_goes_on rfl (by omega)⟩
  | noRequesting hpc | joinRequesting hpc =>
    rw [hpc, DataPc.afterLoop, Option.some.injEq] at hc
    subst hc
    exact Or.inr ⟨rfl, h.emptied (by omega)⟩
  -- the lines of the loop
  | leaves hpc | stays hpc | nothing hpc | opens hpc | older hpc | newer hpc | stores hpc
  | lockAdd hpc | add hpc | adding hpc | unlockAdd hpc | lockCheck hpc | check hpc
  | unlockCheck hpc | keepPrinting hpc | closePrinting hpc | keepRequesting hpc
  | closeRequesting hpc | again hpc | ends hpc =>
    rw [hpc] at hc
    cases hc

/-- **From line 319 to the end.** -/
theorem ends_emptied (hpc : s.data = .lockReset) : EndsEmptied W s := by
  intro es u h
  induction h with
  | nil => exact Or.inl (ending_of_newer hpc)
  | @snoc es u e u' hrun hst ih =>
    rcases ih with hend | ⟨es₁, es₂, v, rfl, h₁, hv, he, h₂⟩
    · rw [List.countP_append, List.countP_singleton]
      cases step_cases hst with
      | signal => exact Or.inl (hend.other rfl .keep)
      | run hidle =>
        have hc := hend.count
        rw [hidle, DataPc.afterLoop, Option.some.injEq] at hc
        exact absurd hend.ongoing (by omega)
      | printer hp => exact Or.inl (hend.other hp.frame.data hp.frame.buf)
      | requester hr =>
        exact Or.inl (hend.other hr.frame.data (by rw [hr.frame.buf]; exact .keep))
      | data hd =>
        rcases hend.own hd with hend | ⟨hidle, he⟩
        · exact Or.inl hend
        · exact Or.inr ⟨_, [], u', by simp, hrun.snoc hst, hidle, he, .nil⟩
    · exact Or.inr ⟨es₁, es₂ ++ [e], v, by simp, h₁, hv, he, h₂.snoc hst⟩

/-- **Sessions never mix.** In every run whose datagrams have sessions, every package with data
comes from a datagram of the running session, an older datagram leaves the buffer as it is and is
dropped, and a newer one makes `data_loop` end with an empty buffer before it stores anything. -/
theorem sessions_apart {W : Wild} {maxData : UInt64} {es : List Event} {t : Tracked}
    (h : Run (Guarded (Fires (trackedStep W)) NonZero) (Tracked.init maxData) es t) :
    (∀ p ∈ t.state.buf.packages.values, p.data ≠ [] →
      FromSession t.received t.state.session p.num p.data) ∧
    ∀ leave d s', t.state.data = .recv → step W t.state (.data leave (some d)) = some s' →
      (d.session < t.state.session → s'.buf = t.state.buf ∧ s'.data = .test) ∧
      (t.state.session ≠ 0 → t.state.session < d.session → EndsEmptied W s') := by
  have ha : Apart t := h.inv (init_apart maxData) fun _ _ _ hI hst => step_apart hI hst
  refine ⟨ha.sourced.bearing, fun leave d s' hpc hst => ?_⟩
  have hrecv : stepData W t.state leave (some d) = some s' := hst
  unfold stepData at hrecv
  rw [hpc] at hrecv
  dsimp only at hrecv
  constructor
  · intro hlt
    have h0 : t.state.session ≠ 0 := by
      intro h0
      rw [h0] at hlt
      exact absurd hlt (by simp)
    rw [if_neg h0, if_pos hlt, Option.some.injEq] at hrecv
    subst hrecv
    exact ⟨rfl, rfl⟩
  · intro h0 hlt
    rw [if_neg h0, if_neg (not_lt.2 hlt.le), if_pos hlt, Option.some.injEq] at hrecv
    subst hrecv
    exact ends_emptied rfl

/-- Packet 0 of session 1, then a packet of session 2. -/
theorem sessions_apart_two : ∃ (t : Tracked) (s' : State),
    t.state.buf.nums = [0] ∧ FromSession t.received 1 0 [7] ∧
    step ⟨fun _ _ => 0, fun _ _ => 0⟩ t.state (.data false (some ⟨2, 5, [9]⟩)) = some s' ∧
      EndsEmptied ⟨fun _ _ => 0, fun _ _ => 0⟩ s' := by
  have he : exec (guarded (trackedStep ⟨fun _ _ => 0, fun _ _ => 0⟩) NonZero) (Tracked.init 8)
      (.run :: .data false none :: .data false (some ⟨1, 0, [7]⟩) ::
        List.replicate 10 (.data false none)) = some _ := rfl
  obtain ⟨hfrom, hd⟩ := sessions_apart (exec_guarded he)
  exact ⟨_, _, rfl, hfrom (Package.mk [7] 0) (by decide) (by decide), rfl,
    (hd false ⟨2, 5, [9]⟩ _ rfl rfl).2 (by decide) (by decide)⟩

end SikMimuw.Receiver
