import SikMimuw.Lib.Descent
import SikMimuw.Proof.Blocks

/-!
# The sender never hangs, and it ends

A thread waits only for a mutex, and the thread that holds it can always go on, so as long as
not all are done one of them has a step (`Locked.enabled`). Once `finish` is set no thread starts
another turn of its loop: every step lowers `State.remaining` (`step_remaining`), whatever the
interleaving, and what `ctrl_loop` still receives and inserts is paid for in advance. A call of
`read` that the test of `finish` has let pass is still made, and its block is sent.

`shutdown` puts this together with what was multicast until then.
-/

namespace SikMimuw.Transmitter

open Lts Mutex

variable {params : Parameters} {stdin : List UInt8} {s s' : State}

/-- `pthread_join` returns for both threads, and `main` has left its loop. -/
structure State.Done (s : State) : Prop where
  main : s.main = .done
  ctrl : s.ctrl = .done
  replay : s.replay = .done

/-! ### Deadlocks -/

/-- The steps of the threads: no signal comes, and a datagram has no more numbers than
`ctrl_buffer` has bytes. -/
def Threads (params : Parameters) : State → Event → State → Prop :=
  Guarded (Fires (step params)) fun _ ev => ev ≠ .signal ∧
    ∀ nums, ev = .ctrl (some nums) → nums.length ≤ ctrlBufSize

/-- `main` stops only where it waits for `mutex_mcast_socket`. -/
theorem main_enabled (hp : 1 ≤ params.psize) (hpc : s.main ≠ .done)
    (hfree : s.mutexMcastSocket = none ∨ s.main.inMcast) :
    ∃ r s', stepMain params s r = some s' := by
  unfold stepMain
  cases hm : s.main
  case done => exact absurd hm hpc
  case lock =>
    rw [hm] at hfree
    exact ⟨none, _, if_pos (hfree.resolve_right (by simp [MainPc.inMcast]))⟩
  case read =>
    -- a block, or what is left
    refine ⟨some (min params.psize s.stdin.length), _, if_pos ⟨Nat.min_le_left _ _, Nat.min_le_right _ _,
      fun h0 => List.length_eq_zero_iff.1 ?_⟩⟩
    omega
  all_goals exact ⟨none, _, rfl⟩

theorem ctrl_enabled (hpc : s.ctrl ≠ .done) (hfree : s.mutexRequests = none ∨ s.ctrl.inRequests) :
    ∃ s', stepCtrl s none = some s' := by
  unfold stepCtrl
  cases hc : s.ctrl
  case done => exact absurd hc hpc
  case lock =>
    rw [hc] at hfree
    exact ⟨_, if_pos (hfree.resolve_right (by simp [CtrlPc.inRequests]))⟩
  case insert nums => cases nums <;> exact ⟨_, rfl⟩
  all_goals exact ⟨_, rfl⟩

theorem replay_enabled (params : Parameters) (hpc : s.replay ≠ .done)
    (hreq : s.mutexRequests = none ∨ s.replay.inRequests ∨ s.replay.inMcast)
    (hmc : s.mutexMcastSocket = none ∨ s.replay.inRequests ∨ s.replay.inMcast) :
    ∃ s', stepReplay params s = some s' := by
  unfold stepReplay
  cases hr : s.replay
  case done => exact absurd hr hpc
  case lockRequests =>
    rw [hr] at hreq
    exact ⟨_, if_pos (hreq.resolve_right (by simp [ReplayPc.inRequests, ReplayPc.inMcast]))⟩
  case lockMcast =>
    rw [hr] at hmc
    exact ⟨_, if_pos (hmc.resolve_right (by simp [ReplayPc.inRequests, ReplayPc.inMcast]))⟩
  case retrieve todo => cases todo <;> exact ⟨_, rfl⟩
  all_goals exact ⟨_, rfl⟩

/-- **No deadlock**: unless all are done, some thread has a step. -/
theorem Locked.enabled (hp : 1 ≤ params.psize) (h : Locked s) (hd : ¬ s.Done) :
    ∃ ev s', Threads params s ev s' := by
  -- the holder of a mutex goes on
  by_cases hr : s.replay.inRequests ∨ s.replay.inMcast
  · have hpc : s.replay ≠ .done := by
      intro hpc
      rw [hpc] at hr
      simp [ReplayPc.inRequests, ReplayPc.inMcast] at hr
    obtain ⟨s', hs'⟩ := replay_enabled params hpc (Or.inr hr) (Or.inr hr)
    exact ⟨.replay, s', hs', by simp⟩
  by_cases hm : s.main.inMcast
  · have hpc : s.main ≠ .done := by
      intro hpc
      rw [hpc] at hm
      cases hm
    obtain ⟨r, s', hs'⟩ := main_enabled hp hpc (Or.inr hm)
    exact ⟨.main r, s', hs', by simp⟩
  by_cases hc : s.ctrl.inRequests
  · have hpc : s.ctrl ≠ .done := by
      intro hpc
      rw [hpc] at hc
      cases hc
    obtain ⟨s', hs'⟩ := ctrl_enabled hpc (Or.inr hc)
    exact ⟨.ctrl none, s', hs', by simp⟩
  -- nobody holds one, so everybody goes on
  have hreq : s.mutexRequests = none := h.requests.free fun t => by
    cases t
    exacts [not_false, hc, fun hin => hr (Or.inl hin)]
  have hmc : s.mutexMcastSocket = none := h.mcast.free fun t => by
    cases t
    exacts [hm, not_false, fun hin => hr (Or.inr hin)]
  by_cases hmain : s.main = .done
  · by_cases hctrl : s.ctrl = .done
    · obtain ⟨s', hs'⟩ := replay_enabled params (fun hrep => hd ⟨hmain, hctrl, hrep⟩)
        (Or.inl hreq) (Or.inl hmc)
      exact ⟨.replay, s', hs', by simp⟩
    · obtain ⟨s', hs'⟩ := ctrl_enabled hctrl (Or.inl hreq)
      exact ⟨.ctrl none, s', hs', by simp⟩
  · obtain ⟨r, s', hs'⟩ := main_enabled hp hmain (Or.inl hmc)
    exact ⟨.main r, s', hs', by simp⟩

/-! ### What is left to do -/

/-- The steps that `main` still makes once `finish` is set. -/
def MainPc.remaining : MainPc → ℕ
  | .read => 7
  | .lock _ => 6
  | .send _ => 5
  | .enqueue _ => 4
  | .advance => 3
  | .unlock | .head => 2
  | .test => 1
  | .done => 0

def CtrlPc.remaining : CtrlPc → ℕ
  | .receive => ctrlBufSize + 5
  | .lock nums => nums.length + 4
  | .insert nums => nums.length + 3
  | .unlock | .head => 2
  | .test => 1
  | .done => 0

/-- How many numbers `ctrl_loop` may still insert. -/
def CtrlPc.inserts : CtrlPc → ℕ
  | .receive => ctrlBufSize
  | .lock nums | .insert nums => nums.length
  | _ => 0

/-- How often `main` still reads. -/
def MainPc.reads : MainPc → ℕ
  | .read => 1
  | _ => 0

/-- `asked` bounds the requests that are still to be copied. -/
def ReplayPc.remaining (asked : ℕ) : ReplayPc → ℕ
  | .lockRequests => 2 * asked + 8
  | .copy => 2 * asked + 7
  | .clear c => 2 * c.length + 6
  | .unlockRequests c => 2 * c.length + 5
  | .lockMcast c => 2 * c.length + 4
  | .send _ _ todo => 2 * todo.length + 4
  | .retrieve todo => 2 * todo.length + 3
  | .unlockMcast => 2
  | .test => 1
  | .done => 0

/-- The requests, with those on their way. -/
def State.asked (s : State) : ℕ := s.retransmisionRequests.keys.length + s.ctrl.inserts

/-- **The measure.** -/
def State.remaining (s : State) : ℕ :=
  s.main.remaining + s.ctrl.remaining + s.replay.remaining s.asked

theorem ReplayPc.remaining_mono {m n : ℕ} (h : m ≤ n) (pc : ReplayPc) :
    pc.remaining m ≤ pc.remaining n := by
  cases pc <;> simp only [ReplayPc.remaining] <;> omega

theorem length_keys_insert (R : OrdSet UInt64) (num : UInt64) :
    (OrdSet.insert R num).keys.length ≤ R.keys.length + 1 := by
  have hsub : (OrdSet.insert R num).keys ⊆ num :: R.keys := by
    intro k hk
    rw [List.mem_cons]
    exact OrdSet.mem_keys_insert.1 hk
  exact List.Nodup.length_le_of_subset OrdMap.nodup_keys hsub

theorem MainStep.remaining (hfin : s.finish) (h : MainStep params s s') :
    s'.main.remaining < s.main.remaining ∧ s'.asked = s.asked := by
  obtain ⟨-, -, hc, -⟩ := h.moves
  have hreq := h.records.1
  refine ⟨?_, by rw [State.asked, State.asked, hc, hreq]⟩
  cases h with
  | ready _ hf | again _ hf => rw [hf] at hfin; cases hfin
  | read hpc =>
    rw [hpc]
    dsimp only
    split <;> simp [MainPc.remaining]
  | poll hpc | done hpc | lock hpc | send hpc | enqueue hpc | advance hpc | unlock hpc =>
    rw [hpc]
    exact Nat.lt_succ_self _

/-- **After `finish`** `main` reads only where it has made the test before. -/
theorem MainStep.reads (hfin : s.finish) (h : MainStep params s s') :
    s'.finish ∧ s.reads <+: s'.reads ∧
      s'.reads.length + s'.main.reads ≤ s.reads.length + s.main.reads := by
  cases h with
  | ready _ hf | again _ hf => rw [hf] at hfin; cases hfin
  | @read n hpc =>
    refine ⟨by simp [hfin], List.prefix_append _ _, ?_⟩
    have hzero : (if n = params.psize then MainPc.lock (s.stdin.take n) else .test).reads = 0 := by
      split <;> rfl
    dsimp only
    rw [hzero, hpc, List.length_append]
    exact le_rfl
  | poll hpc | done hpc | lock hpc | send hpc | enqueue hpc | advance hpc | unlock hpc =>
    rw [hpc]
    exact ⟨hfin, List.prefix_rfl, le_rfl⟩

theorem CtrlStep.remaining (hfin : s.finish) (h : CtrlStep s s')
    (hnums : ∀ nums, s.ctrl = .receive → s'.ctrl = .lock nums → nums.length ≤ ctrlBufSize) :
    s'.ctrl.remaining < s.ctrl.remaining ∧ s'.asked ≤ s.asked := by
  unfold State.asked
  cases h with
  | ready _ hf | again _ hf => rw [hf] at hfin; cases hfin
  | poll hpc | done hpc | lock hpc | inserted hpc | unlock hpc =>
    rw [hpc]
    exact ⟨Nat.lt_succ_self _, le_rfl⟩
  | other hpc =>
    rw [hpc]
    simp only [CtrlPc.remaining, CtrlPc.inserts]
    exact ⟨by omega, by omega⟩
  | @receive nums hpc =>
    have hle := hnums nums hpc rfl
    rw [hpc]
    simp only [CtrlPc.remaining, CtrlPc.inserts]
    exact ⟨by omega, by omega⟩
  | @insert num nums hpc =>
    rw [hpc]
    have hlen := length_keys_insert s.retransmisionRequests num
    simp only [CtrlPc.remaining, CtrlPc.inserts, List.length_cons]
    exact ⟨by omega, by omega⟩

theorem stepCtrl_receive {r : Option (List UInt64)} {nums : List UInt64} (h : stepCtrl s r = some s')
    (hpc : s.ctrl = .receive) (hlock : s'.ctrl = .lock nums) : r = some nums := by
  unfold stepCtrl at h
  rw [hpc] at h
  cases r with
  | none =>
    cases h
    cases hlock
  | some nums' =>
    cases h
    rw [CtrlPc.lock.inj hlock]

theorem ReplayStep.remaining (hfin : s.finish) (h : ReplayStep params s s') :
    s'.replay.remaining s'.asked < s.replay.remaining s.asked := by
  cases h with
  | again _ hf => rw [hf] at hfin; cases hfin
  | lock hpc | clear hpc | unlockRequests hpc | lockMcast hpc | retrieved hpc | send hpc
  | unlockMcast hpc | done hpc =>
    rw [hpc]
    exact Nat.lt_succ_self _
  | copy hpc =>
    rw [hpc]
    simp only [ReplayPc.remaining, State.asked]
    omega
  | retrieve hpc =>
    rw [hpc]
    dsimp only
    split <;> simp only [ReplayPc.remaining, List.length_cons] <;> omega

/-! ### The end -/

/-- What a run after `finish` may still read. -/
def Reading (s₀ s : State) : Prop :=
  s.finish ∧ s₀.reads <+: s.reads ∧ s.reads.length + s.main.reads ≤ s₀.reads.length + s₀.main.reads

theorem Reading.keep {s₀ : State} (h : Reading s₀ s) (hfin : s'.finish) (hreads : s'.reads = s.reads)
    (hmain : s'.main = s.main) : Reading s₀ s' := by
  obtain ⟨-, hpre, hle⟩ := h
  exact ⟨hfin, by rwa [hreads], by rwa [hreads, hmain]⟩

/-- **One step** of a thread after `finish`. -/
theorem step_remaining {s₀ : State} {ev : Event} (hs : Reading s₀ s) (h : Threads params s ev s') :
    Reading s₀ s' ∧ s'.remaining < s.remaining := by
  obtain ⟨hst, hsig, hnums⟩ := h
  have hfin := hs.1
  unfold Fires step at hst
  unfold State.remaining
  cases ev <;> dsimp only at hst
  case signal => exact absurd rfl hsig
  case main =>
    have hm := stepMain_cases hst
    obtain ⟨hlt, hasked⟩ := hm.remaining hfin
    obtain ⟨-, -, hc, hr⟩ := hm.moves
    obtain ⟨hfin', hpre, hle⟩ := hm.reads hfin
    rw [hc, hr, hasked]
    exact ⟨⟨hfin', hs.2.1.trans hpre, hle.trans hs.2.2⟩, by omega⟩
  case ctrl =>
    have hc := stepCtrl_cases hst
    obtain ⟨hlt, hasked⟩ := hc.remaining hfin fun nums hpc hlock =>
      hnums nums (by rw [stepCtrl_receive hst hpc hlock])
    obtain ⟨-, -, hm, hr⟩ := hc.moves
    have hle := ReplayPc.remaining_mono hasked s.replay
    rw [hm, hr]
    refine ⟨hs.keep ?_ hc.frame.reads hm, by omega⟩
    cases hc <;> exact hfin
  case replay =>
    have hr := stepReplay_cases hst
    have hlt := hr.remaining hfin
    obtain ⟨-, -, hm, hc⟩ := hr.moves
    rw [hm, hc]
    refine ⟨hs.keep ?_ hr.frame.reads hm, by omega⟩
    cases hr <;> exact hfin

theorem threads_descend (params : Parameters) (s₀ : State) :
    Descends (Threads params) (Reading s₀) State.remaining where
  keeps _ _ _ hs h := (step_remaining hs h).1
  lowers _ _ _ hs h := (step_remaining hs h).2

/-- **The sender shuts down.** In every state that it can reach:

* unless the three threads are done, one of them has a step, so they never wait for each other;
* once `finish` is set, by a signal or at the end of `stdin`, at most `s.remaining` more steps are
  made, in whatever order, and nothing is read any more, but by a call of `read` that the test of line
  230 has let pass before;
* the threads come to their ends, with both mutexes free, and the blocks that `main` has multicast
  by then are the full reads, each once and in order. -/
theorem shutdown (params : Parameters) (stdin : List UInt8) (hp : 1 ≤ params.psize)
    {es : List Event} {s : State} (h : Run (Fires (step params)) (State.init params stdin) es s) :
    (¬ s.Done → ∃ ev s', Threads params s ev s') ∧
    (s.finish → ∀ es' u, Run (Threads params) s es' u →
      es'.length + u.remaining ≤ s.remaining ∧
      (s.main ≠ .read → u.reads = s.reads) ∧ u.reads.length ≤ s.reads.length + 1 ∧
      ∃ es'' v, Run (Threads params) u es'' v ∧ v.Done ∧
        v.mutexRequests = none ∧ v.mutexMcastSocket = none ∧
        (originals v.log).map Package.data = fullReads params.psize v.reads) := by
  have hok := run_senderOk hp h
  refine ⟨hok.locked.enabled hp, fun hfin es' u hr => ?_⟩
  have hd := threads_descend params s
  have hstart : Reading s s := ⟨hfin, List.prefix_rfl, le_rfl⟩
  obtain ⟨-, hpre, hreads⟩ := hd.inv hstart hr
  have hone : s.main.reads ≤ 1 := by cases s.main <;> simp [MainPc.reads]
  refine ⟨hd.length_le hstart hr, fun hpc => ?_, by omega, ?_⟩
  · have hzero : s.main.reads = 0 := by
      cases hm : s.main
      case read => exact absurd hm hpc
      all_goals rfl
    exact (hpre.eq_of_length_le (by omega)).symm
  obtain ⟨es'', v, hrun, hend⟩ := hd.ends (hd.inv hstart hr) rfl
  refine ⟨es'', v, hrun, ?_⟩
  have hv : SenderOk params stdin v :=
    (hr.append hrun).inv hok fun _ _ _ hI hst => step_senderOk hp hI hst.1
  -- nobody has a step, so all are done
  have hdone : v.Done := by
    by_contra hnd
    obtain ⟨ev, v', hst⟩ := hv.locked.enabled hp hnd
    exact hend ev v' hst
  refine ⟨hdone, ?_, ?_, ?_⟩
  · refine hv.locked.requests.free fun t => ?_
    cases t <;> simp [State.inRequests, hdone.ctrl, hdone.replay, CtrlPc.inRequests,
      ReplayPc.inRequests]
  · refine hv.locked.mcast.free fun t => ?_
    cases t <;> simp [State.inMcast, hdone.main, hdone.replay, MainPc.inMcast, ReplayPc.inMcast]
  · rw [← hv.stream.blocks, hdone.main]
    exact (List.append_nil _).symm

/-- The signal comes after two blocks and a round, when `main` is about to read once more. -/
theorem shutdown_two : ∃ s u es v,
    Run (Fires (step ⟨[], 0, 2, 4, []⟩)) (State.init ⟨[], 0, 2, 4, []⟩ [1, 2, 3, 4, 5, 6])
      (twoBlocks ++ [.main (some 2), .signal]) s ∧ s.finish ∧ s.reads = [[1, 2], [3, 4]] ∧
    step ⟨[], 0, 2, 4, []⟩ s (.main (some 2)) = some u ∧
    Run (Threads ⟨[], 0, 2, 4, []⟩) u es v ∧ v.Done ∧
    (originals v.log).map Package.data = [[1, 2], [3, 4], [5, 6]] := by
  have he : ((exec (step ⟨[], 0, 2, 4, []⟩) (State.init ⟨[], 0, 2, 4, []⟩ [1, 2, 3, 4, 5, 6])
      (twoBlocks ++ [.main (some 2), .signal])).bind fun s =>
        (step ⟨[], 0, 2, 4, []⟩ s (.main (some 2))).map fun u =>
          ((s.finish, s.reads), u.finish, u.reads, u.main.held)) =
        some ((true, [[1, 2], [3, 4]]), true, [[1, 2], [3, 4], [5, 6]], [[5, 6]]) := by decide
  obtain ⟨s, hr, hs⟩ := Option.bind_eq_some_iff.1 he
  obtain ⟨u, hu, hview⟩ := Option.map_eq_some_iff.1 hs
  simp only [Prod.mk.injEq] at hview
  obtain ⟨⟨hfin, hreads⟩, hufin, hureads, hheld⟩ := hview
  have hpc : u.main ≠ .read := by
    intro hpc
    rw [hpc] at hheld
    cases hheld
  obtain ⟨-, hall⟩ := shutdown ⟨[], 0, 2, 4, []⟩ [1, 2, 3, 4, 5, 6] (by decide) ((exec_run hr).snoc hu)
  obtain ⟨-, -, -, es, v, hrun, hdone, -, -, hv⟩ := hall hufin [] u Run.nil
  obtain ⟨-, hsame, -⟩ := hall hufin es v hrun
  rw [hsame hpc, hureads] at hv
  exact ⟨s, u, es, v, exec_run hr, hfin, hreads, hu, hrun, hdone, hv⟩

end SikMimuw.Transmitter
