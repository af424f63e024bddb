import SikMimuw.Proof.Blocks

/-!
# Retransmission requests

A number is pending from its insertion to the next copy. `replay_loop` copies and clears under
`mutex_requests`, so what it copies is what is pending (`RequestsOk`). It resends under
`mutex_mcast_socket`, so the fifo does not move during a round, and of the batch exactly the
numbers of the last `FSIZE / PSIZE` blocks are resent, in their order (`RoundOk`).

`rounds_ok` puts both together, for every run.
-/

namespace SikMimuw.Transmitter

open Lts Mutex

variable {params : Parameters} {stdin : List UInt8} {s s' : State} {log : List Entry} {o : Entry}
  {batch done : List UInt64} {num : UInt64} {F : ℕ}

/-- `num` was inserted, and nothing was copied since. -/
def Pending (log : List Entry) (num : UInt64) : Prop :=
  ∃ pre post, log = pre ++ .inserted num :: post ∧ ∀ b, .copied b ∉ post

theorem pending_snoc :
    Pending (log ++ [o]) num ↔ o = .inserted num ∨ (Pending log num ∧ ∀ b, o ≠ .copied b) := by
  constructor
  · rintro ⟨pre, post, h, hpost⟩
    rcases snoc_eq_append_cons.1 h with ⟨-, -, ho⟩ | ⟨post', rfl, hlog⟩
    · exact Or.inl ho
    · simp only [List.mem_append, List.mem_singleton, not_or] at hpost
      exact Or.inr ⟨⟨pre, post', hlog, fun b => (hpost b).1⟩, fun b => (hpost b).2 ∘ Eq.symm⟩
  · rintro (rfl | ⟨⟨pre, post, rfl, hpost⟩, ho⟩)
    · exact ⟨log, [], rfl, by simp⟩
    · refine ⟨pre, post ++ [o], by simp, fun b hb => ?_⟩
      rcases List.mem_append.1 hb with hb | hb
      · exact hpost b hb
      · exact ho b (List.mem_singleton.1 hb).symm

/-! ### Batches -/

/-- A copied batch holds the pending numbers, each once. -/
def BatchOk (pre : List Entry) : Entry → Prop
  | .copied batch => batch.Nodup ∧ ∀ n, n ∈ batch ↔ Pending pre n
  | _ => True

/-- **The request set** holds the pending numbers, except between a copy and the clear after it. -/
structure RequestsOk (s : State) : Prop where
  keys : (∀ b, s.replay ≠ .clear b) → ∀ n, n ∈ s.retransmisionRequests.keys ↔ Pending s.log n
  cleared : ∀ b, s.replay = .clear b → ∀ n, ¬ Pending s.log n
  batches : Always BatchOk s.log

theorem not_pending_copied : ¬ Pending (log ++ [.copied batch]) num := by
  rw [pending_snoc]
  rintro (h | ⟨-, h⟩)
  · cases h
  · exact h batch rfl

/-- An entry that neither inserts nor copies. -/
theorem pending_snoc_other (hi : ∀ n, o ≠ .inserted n) (hc : ∀ b, o ≠ .copied b) :
    Pending (log ++ [o]) num ↔ Pending log num := by
  rw [pending_snoc]
  exact ⟨fun h => (h.resolve_left (hi num)).1, fun h => Or.inr ⟨h, hc⟩⟩

/-- **One step** keeps what is pending. -/
theorem step_requestsOk {ev : Event} (hl : Locked s) (hs : RequestsOk s)
    (h : step params s ev = some s') : RequestsOk s' := by
  obtain ⟨hkeys, hclear, hbatch⟩ := hs
  cases ev <;> unfold step at h <;> dsimp only at h
  case signal =>
    cases h
    exact ⟨hkeys, hclear, hbatch⟩
  case main =>
    have hm := stepMain_cases h
    obtain ⟨-, -, -, hr⟩ := hm.moves
    obtain ⟨hreq, he | ⟨audioData, -, he⟩⟩ := hm.records
    · exact ⟨by rwa [hr, hreq, he], by rwa [hr, he], by rwa [he]⟩
    · have hp : ∀ n, Pending s'.log n ↔ Pending s.log n := fun n => by
        rw [he]
        exact pending_snoc_other (by simp) (by simp)
      refine ⟨?_, ?_, by rw [he]; exact always_snoc hbatch trivial⟩
      · intro hne n
        rw [hreq, hp]
        exact hkeys (by rwa [← hr]) n
      · intro b hb n
        rw [hp]
        exact hclear b (by rwa [← hr]) n
  case ctrl =>
    cases stepCtrl_cases h with
    | poll | ready | other | again | done | receive | lock | inserted | unlock =>
      exact ⟨hkeys, hclear, hbatch⟩
    | @insert num nums hpc =>
      -- `replay_loop` is outside, so it is not between its copy and its clear
      have hout := hl.ctrl_or_replay (by rw [hpc]; rfl)
      have hne : ∀ b, s.replay ≠ .clear b := fun b hb => by rw [hb] at hout; cases hout
      refine ⟨fun _ n => ?_, fun b hb => absurd hb (hne b), always_snoc hbatch trivial⟩
      show n ∈ (s.retransmisionRequests.insert num).keys ↔ Pending (s.log ++ _) n
      rw [OrdSet.mem_keys_insert, pending_snoc, hkeys hne]
      simp [eq_comm]
  case replay =>
    cases stepReplay_cases h with
    | lock hpc | retrieved hpc | unlockRequests hpc | again hpc | done hpc =>
      exact ⟨fun _ => hkeys (by simp [hpc]), nofun, hbatch⟩
    | copy hpc =>
      refine ⟨fun hne => absurd rfl (hne _), fun b _ n => not_pending_copied, ?_⟩
      -- the copy is the key list of a set that holds what is pending
      exact always_snoc hbatch ⟨OrdMap.nodup_keys, hkeys (by simp [hpc])⟩
    | @clear b hpc =>
      refine ⟨fun _ n => ?_, nofun, hbatch⟩
      exact iff_of_false (by simp) (hclear b hpc n)
    | lockMcast hpc | send hpc | unlockMcast hpc =>
      refine ⟨fun _ n => ?_, nofun, always_snoc hbatch trivial⟩
      show _ ↔ Pending (s.log ++ _) n
      rw [pending_snoc_other (by simp) (by simp)]
      exact hkeys (by simp [hpc]) n
    | retrieve hpc =>
      refine ⟨fun _ => hkeys (by simp [hpc]), fun b hb => ?_, hbatch⟩
      dsimp only at hb
      split at hb <;> cases hb

/-! ### Rounds -/

/-- An entry of `replay_loop`. -/
def Entry.byReplay : Entry → Bool
  | .copied _ | .locked | .resent .. | .unlocked => true
  | _ => false

/-- An entry made while `replay_loop` has `mutex_mcast_socket`. -/
def Entry.inRound : Entry → Bool
  | .resent .. | .inserted _ => true
  | _ => false

/-- The last thing that `replay_loop` did was to copy `batch`. -/
def CopiedLast (log : List Entry) (batch : List UInt64) : Prop :=
  ∃ pre post, log = pre ++ .copied batch :: post ∧ ∀ o ∈ post, o.byReplay = false

/-- The numbers of the last `F` blocks that `main` has sent. -/
def window (F : ℕ) (log : List Entry) : List UInt64 := ((originals log).rtake F).map Package.num

/-- The numbers resent. -/
def resentNums (log : List Entry) : List UInt64 :=
  log.filterMap fun | .resent num _ => some num | _ => none

/-- **A round** over `batch` is under way and has dealt with the numbers of `done`: those of them
that were in the window when it took the mutex were resent, in their order. -/
def Round (F : ℕ) (log : List Entry) (batch done : List UInt64) : Prop :=
  ∃ before mid, log = before ++ .locked :: mid ∧ CopiedLast before batch ∧
    (∀ o ∈ mid, o.inRound) ∧ resentNums mid = done.filter fun n => n ∈ window F before

/-- A round that is over has dealt with its whole batch. -/
def RoundDone (F : ℕ) (pre : List Entry) : Entry → Prop
  | .unlocked => ∃ batch, Round F pre batch batch
  | _ => True

/-- How far `replay_loop` is, by its program counter. -/
def RoundAt (F : ℕ) (log : List Entry) : ReplayPc → Prop
  | .clear batch | .unlockRequests batch | .lockMcast batch => CopiedLast log batch
  | .retrieve todo => ∃ done, Round F log (done ++ todo) done
  | .send _ num todo => ∃ done, Round F log (done ++ num :: todo) done ∧ num ∈ window F log
  | .unlockMcast => ∃ batch, Round F log batch batch
  | _ => True

structure RoundOk (F : ℕ) (s : State) : Prop where
  at_ : RoundAt F s.log s.replay
  rounds : Always (RoundDone F) s.log

theorem CopiedLast.snoc (h : CopiedLast log batch) (ho : o.byReplay = false) :
    CopiedLast (log ++ [o]) batch := by
  obtain ⟨pre, post, rfl, hpost⟩ := h
  exact ⟨pre, post ++ [o], by simp, List.forall_mem_append.2 ⟨hpost, List.forall_mem_singleton.2 ho⟩⟩

/-- No block is sent during a round. -/
theorem Round.window_eq (h : Round F log batch done) :
    ∃ before mid, log = before ++ .locked :: mid ∧ CopiedLast before batch ∧
      (∀ o ∈ mid, o.inRound) ∧ (resentNums mid = done.filter fun n => n ∈ window F before) ∧
      window F log = window F before := by
  obtain ⟨before, mid, rfl, hc, hmid, hres⟩ := h
  refine ⟨before, mid, rfl, hc, hmid, hres, ?_⟩
  -- a round's entries are not those of `main`
  have hsent : originals (.locked :: mid) = [] := by
    unfold originals
    rw [List.filterMap_eq_nil_iff]
    intro o ho
    rcases List.mem_cons.1 ho with rfl | ho
    · rfl
    · have := hmid o ho
      cases o <;> first | rfl | cases this
  have happ : originals (before ++ .locked :: mid) = originals before ++ originals (.locked :: mid) :=
    List.filterMap_append
  unfold window
  rw [happ, hsent, List.append_nil]

/-- The round begins. -/
theorem Round.start (h : CopiedLast log batch) : Round F (log ++ [.locked]) batch [] :=
  ⟨log, [], rfl, h, by simp, rfl⟩

/-- A number is inserted meanwhile. -/
theorem Round.inserted (h : Round F log batch done) (n : UInt64) :
    Round F (log ++ [.inserted n]) batch done := by
  obtain ⟨before, mid, rfl, hc, hmid, hres⟩ := h
  refine ⟨before, mid ++ [.inserted n], by simp, hc, ?_, ?_⟩
  · exact List.forall_mem_append.2 ⟨hmid, List.forall_mem_singleton.2 rfl⟩
  · rw [← hres]
    simp [resentNums]

/-- A number of the window is resent. -/
theorem Round.resent (h : Round F log batch done) (hw : num ∈ window F log) (data : List UInt8) :
    Round F (log ++ [.resent num data]) batch (done ++ [num]) := by
  obtain ⟨before, mid, rfl, hc, hmid, hres, hwin⟩ := h.window_eq
  rw [hwin] at hw
  refine ⟨before, mid ++ [.resent num data], by simp, hc, ?_, ?_⟩
  · exact List.forall_mem_append.2 ⟨hmid, List.forall_mem_singleton.2 rfl⟩
  · rw [List.filter_append, ← hres]
    simp [resentNums, hw]

/-- A number that is not in the window is skipped. -/
theorem Round.skip (h : Round F log batch done) (hw : num ∉ window F log) :
    Round F log batch (done ++ [num]) := by
  obtain ⟨before, mid, rfl, hc, hmid, hres, hwin⟩ := h.window_eq
  rw [hwin] at hw
  refine ⟨before, mid, rfl, hc, hmid, ?_⟩
  rw [hres, List.filter_append]
  simp [hw]

/-- **What `retrieve` finds** while `main` is outside: the numbers of the window. -/
theorem retrieve_length_iff (hp : 1 ≤ params.psize) (hs : StreamOk params stdin s)
    (hout : s.main.inMcast = false) (num : UInt64) :
    (s.fifo.retrieve num).length = params.psize ↔
      num ∈ window (params.fsize / params.psize) s.log := by
  have hlist : s.fifo.list = (originals s.log).rtake (params.fsize / params.psize) := by
    rw [hs.fifo, hs.maxCount, queued_eq_originals hout]
  unfold window
  rw [← hlist, List.mem_map]
  constructor
  · intro hlen
    exact ⟨_, retrieve_mem (List.ne_nil_of_length_pos (by omega)), rfl⟩
  · rintro ⟨p, hmem, rfl⟩
    obtain ⟨q, hq⟩ : ∃ q, s.fifo.list.find? (·.num = p.num) = some q := by
      rw [← Option.isSome_iff_exists, List.find?_isSome]
      exact ⟨p, hmem, by simp⟩
    have hdata : s.fifo.retrieve p.num = q.data := by
      unfold Fifo.retrieve
      rw [hq]
    -- whatever is in the fifo is a full read, so line 177 lets it through
    have hblock : q.data ∈ fullReads params.psize s.reads := by
      rw [← hs.blocks]
      have hqm := List.mem_of_find?_eq_some hq
      rw [hlist] at hqm
      exact List.mem_append_left _ (List.mem_map_of_mem (List.mem_of_mem_drop hqm))
    rw [hdata]
    simpa [fullReads] using (List.mem_filter.1 hblock).2

theorem RoundAt.inserted {pc : ReplayPc} (h : RoundAt F log pc) (n : UInt64) :
    RoundAt F (log ++ [.inserted n]) pc := by
  cases pc with
  | clear | unlockRequests | lockMcast => exact CopiedLast.snoc h rfl
  | retrieve =>
    obtain ⟨done, h⟩ := h
    exact ⟨done, h.inserted n⟩
  | send =>
    obtain ⟨done, h, hw⟩ := h
    refine ⟨done, h.inserted n, ?_⟩
    unfold window at hw ⊢
    rwa [originals_snoc (by simp)]
  | unlockMcast =>
    obtain ⟨batch, h⟩ := h
    exact ⟨batch, h.inserted n⟩
  | _ => trivial

/-- `main` sends only while `replay_loop` is not in a round. -/
theorem RoundAt.sent {pc : ReplayPc} (h : RoundAt F log pc) (hout : pc.inMcast = false)
    (n : UInt64) (data : List UInt8) : RoundAt F (log ++ [.sent n data]) pc := by
  cases pc with
  | clear | unlockRequests | lockMcast => exact CopiedLast.snoc h rfl
  | retrieve | send | unlockMcast => cases hout
  | _ => trivial

/-- **One step** keeps the rounds. -/
theorem step_roundOk {ev : Event} (hp : 1 ≤ params.psize) (hok : SenderOk params stdin s)
    (hs : RoundOk (params.fsize / params.psize) s) (h : step params s ev = some s') :
    RoundOk (params.fsize / params.psize) s' := by
  obtain ⟨hat, hrounds⟩ := hs
  cases ev <;> unfold step at h <;> dsimp only at h
  case signal =>
    cases h
    exact ⟨hat, hrounds⟩
  case main =>
    have hm := stepMain_cases h
    obtain ⟨-, -, -, hr⟩ := hm.moves
    obtain ⟨-, he | ⟨audioData, hpc, he⟩⟩ := hm.records
    · exact ⟨by rwa [hr, he], by rwa [he]⟩
    -- `main` holds the mutex while it sends, so no round is under way
    · have hout : s.replay.inMcast = false := by
        by_contra hin
        rw [Bool.not_eq_false] at hin
        have hmain := hok.locked.main_or_replay hin
        rw [hpc] at hmain
        cases hmain
      exact ⟨by rw [hr, he]; exact hat.sent hout _ _, by rw [he]; exact always_snoc hrounds trivial⟩
  case ctrl =>
    cases stepCtrl_cases h with
    | poll | ready | other | again | done | receive | lock | inserted | unlock =>
      exact ⟨hat, hrounds⟩
    | insert => exact ⟨hat.inserted _, always_snoc hrounds trivial⟩
  case replay =>
    cases stepReplay_cases h with
    | lock | again | done => exact ⟨trivial, hrounds⟩
    | copy =>
      exact ⟨⟨s.log, [], rfl, by simp⟩, always_snoc hrounds trivial⟩
    | clear hpc | unlockRequests hpc =>
      rw [hpc] at hat
      exact ⟨hat, hrounds⟩
    | lockMcast hpc =>
      rw [hpc] at hat
      exact ⟨⟨[], Round.start hat⟩, always_snoc hrounds trivial⟩
    | @retrieve num todo hpc =>
      have hfound := retrieve_length_iff hp hok.stream
        (hok.locked.main_or_replay (by rw [hpc]; rfl)) num
      rw [hpc] at hat
      obtain ⟨done, hround⟩ := hat
      refine ⟨?_, hrounds⟩
      dsimp only
      by_cases hlen : (s.fifo.retrieve num).length = params.psize
      · rw [if_pos hlen]
        exact ⟨done, hround, hfound.1 hlen⟩
      · rw [if_neg hlen]
        refine ⟨done ++ [num], ?_⟩
        rw [List.append_assoc]
        exact hround.skip fun hw => hlen (hfound.2 hw)
    | retrieved hpc =>
      rw [hpc] at hat
      obtain ⟨done, hround⟩ := hat
      rw [List.append_nil] at hround
      exact ⟨⟨done, hround⟩, hrounds⟩
    | @send data num todo hpc =>
      rw [hpc] at hat
      obtain ⟨done, hround, hw⟩ := hat
      refine ⟨⟨done ++ [num], ?_⟩, always_snoc hrounds trivial⟩
      rw [List.append_assoc]
      exact hround.resent hw data
    | unlockMcast hpc =>
      rw [hpc] at hat
      exact ⟨trivial, always_snoc hrounds hat⟩

/-! ### Runs -/

theorem run_rounds {es : List Event} (hp : 1 ≤ params.psize)
    (h : Run (Fires (step params)) (State.init params stdin) es s) :
    SenderOk params stdin s ∧ RequestsOk s ∧ RoundOk (params.fsize / params.psize) s := by
  have hinit : RequestsOk (State.init params stdin) := by
    refine ⟨fun _ n => iff_of_false (by simp [State.init]) ?_, by simp [State.init], always_nil⟩
    rintro ⟨pre, post, he, -⟩
    simp [State.init] at he
  refine h.inv (I := fun s => SenderOk params stdin s ∧ RequestsOk s ∧
    RoundOk (params.fsize / params.psize) s)
    ⟨init_senderOk params stdin, hinit, trivial, always_nil⟩ ?_
  rintro s e t ⟨hok, hreq, hround⟩ hst
  exact ⟨step_senderOk hp hok hst, step_requestsOk hok.locked hreq hst,
    step_roundOk hp hok hround hst⟩

/-- **No request is lost or doubled**, in any run:

* a copied batch holds each number inserted since the copy before it, once, and no other;
* a round resends, of the batch copied before it and in its order, exactly the numbers of the
  last `FSIZE / PSIZE` blocks sent before it took `mutex_mcast_socket`. -/
theorem rounds_ok (params : Parameters) (stdin : List UInt8) (hp : 1 ≤ params.psize)
    {es : List Event} {s : State}
    (h : Run (Fires (step params)) (State.init params stdin) es s) :
    (∀ pre batch post, s.log = pre ++ .copied batch :: post →
      batch.Nodup ∧ ∀ n, n ∈ batch ↔ Pending pre n) ∧
    ∀ pre post, s.log = pre ++ .unlocked :: post → ∃ before mid batch,
      pre = before ++ .locked :: mid ∧ CopiedLast before batch ∧ (∀ o ∈ mid, o.inRound) ∧
      resentNums mid = batch.filter fun n => n ∈ window (params.fsize / params.psize) before := by
  obtain ⟨-, hreq, hround⟩ := run_rounds hp h
  refine ⟨fun pre batch post he => hreq.batches pre _ post he, fun pre post he => ?_⟩
  obtain ⟨batch, before, mid, hpre, hc, hmid, hres⟩ := hround.rounds pre _ post he
  exact ⟨before, mid, batch, hpre, hc, hmid, hres⟩

/-- Two blocks, a request for 0 and 1, and a round that resends block 0. -/
theorem rounds_ok_two_blocks : ∃ s,
    Run (Fires (step ⟨[], 0, 2, 4, []⟩)) (State.init ⟨[], 0, 2, 4, []⟩ [1, 2, 3, 4]) twoBlocks s ∧
      s.log = [.sent 0 [1, 2], .sent 2 [3, 4], .inserted 0, .inserted 1, .copied [0, 1], .locked,
        .resent 0 [1, 2], .unlocked] ∧
      ∀ n : UInt64, n ∈ [(0 : UInt64), 1] ↔
        Pending [.sent 0 [1, 2], .sent 2 [3, 4], .inserted 0, .inserted 1] n := by
  have he : ((exec (step ⟨[], 0, 2, 4, []⟩) (State.init ⟨[], 0, 2, 4, []⟩ [1, 2, 3, 4])
      twoBlocks).map State.log) = some [.sent 0 [1, 2], .sent 2 [3, 4], .inserted 0, .inserted 1,
        .copied [0, 1], .locked, .resent 0 [1, 2], .unlocked] := by decide
  obtain ⟨s, hr, hs⟩ := Option.map_eq_some_iff.1 he
  have hok := rounds_ok ⟨[], 0, 2, 4, []⟩ [1, 2, 3, 4] (by decide) (exec_run hr)
  exact ⟨s, exec_run hr, hs, (hok.1 [.sent 0 [1, 2], .sent 2 [3, 4], .inserted 0, .inserted 1] [0, 1]
    [.locked, .resent 0 [1, 2], .unlocked] hs).2⟩

end SikMimuw.Transmitter
