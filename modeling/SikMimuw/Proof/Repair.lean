import Mathlib.Data.Nat.Digits.Defs
import SikMimuw.Proof.Codec
import SikMimuw.Proof.Playback
import SikMimuw.Proof.Reassembly
import SikMimuw.Proof.Replay

/-!
# A round of retransmissions

The receiver asks for what is missing, the sender's `ctrl_loop` collects the numbers, `replay_loop`
takes the blocks from the fifo and multicasts them, and `add_to_buffor` puts each in its place.

* `handleAll_requests`: however the requests are reordered or repeated, the sender's set is the
  receiver's.
* `turn_ok`: a turn of `replay_loop`, among the steps of all threads.
* `repair_round`: all of it.
-/

namespace SikMimuw

open Lts CStr

/-! ### Requests -/

namespace Receiver

variable {W : Wild} {b : Buffer} {len : UInt64}

/-- The numbers that `requesting_loop` reads through its copy of `set`. -/
def Buffer.snapshot (W : Wild) (b : Buffer) : List UInt64 :=
  b.set.entries.map fun e => b.numAt W e.2

/-- They are the keys. -/
theorem snapshot_eq (h : BufOk len b) : b.snapshot W = b.set.keys := by
  unfold Buffer.snapshot OrdMap.keys
  refine List.map_congr_left fun e he => ?_
  have hd := (h.keys e.1 e.2).1 he
  unfold Buffer.numAt
  rw [NodeList.deref_eq_some.2 hd]

end Receiver

namespace Transmitter

variable {params : Parameters} {R : OrdSet UInt64} {fields nums : List UInt64}

theorem length_decimal (n : UInt64) : (decimal n.toNat).length ≤ 20 := by
  have hlt := n.toNat_lt
  unfold decimal
  rw [List.length_map]
  exact Nat.toDigits_length 10 n.toNat 20 (by decide) (by omega)

/-- A request fits the sender's buffer. -/
theorem length_message (h : fields.length ≤ 10) :
    (Receiver.message fields).length < ctrlBufSize := by
  have hlen :
      (fields.flatMap fun num => decimal num.toNat ++ [44]).length ≤ 21 * fields.length := by
    clear h
    induction fields with
    | nil => simp
    | cons num fields ih =>
      have hnum := length_decimal num
      rw [List.flatMap_cons, List.length_append, List.length_append, List.length_singleton,
        List.length_cons]
      omega
  unfold Receiver.message
  rw [List.length_append]
  have hr : Receiver.rexmit.length = 14 := rfl
  unfold ctrlBufSize
  omega

theorem notMem_message (c : UInt8) (hr : c ∉ Receiver.rexmit) (hd : isdigit c = false)
    (h44 : c ≠ 44) : c ∉ Receiver.message fields := by
  unfold Receiver.message
  rw [List.mem_append, not_or]
  refine ⟨hr, fun h => ?_⟩
  obtain ⟨num, -, hc⟩ := List.mem_flatMap.1 h
  rw [List.mem_append, List.mem_singleton] at hc
  rcases hc with hc | hc
  · rw [isdigit_of_mem_decimal hc] at hd
    cases hd
  · exact h44 hc

section

variable {c : Ctrl} {d s t : List UInt8} {ptr : ℕ}

/-- **A request**, by what the buffer holds of it: its numbers are added to the set. -/
theorem Ctrl.handle_request (hread : read (recvfrom c.ctrlBuffer d) = some s) (hnot : s ≠ lookup)
    (hkey : rexmit <:+: s) (hscan : scan 32 (recvfrom c.ctrlBuffer d) = some ptr)
    (hrest : read ((recvfrom c.ctrlBuffer d).drop (ptr + 1)) = some t) :
    c.handle params d = some (none, ⟨zeroBuffer, addToSet c.retransmisionRequests t⟩) := by
  unfold Ctrl.handle
  simp only [hread, Option.bind_eq_bind, Option.bind_some, if_neg hnot, if_pos hkey, hscan, hrest]
  rfl

end

/-- **One request** of `requesting_loop`. -/
theorem handle_message (hne : fields ≠ []) (hlen : fields.length ≤ 10) (R : OrdSet UInt64) :
    Ctrl.handle params ⟨zeroBuffer, R⟩ (Receiver.message fields).dropLast = some (none,
      ⟨zeroBuffer, addToSet R (Receiver.afterSpace (Receiver.message fields).dropLast)⟩) := by
  have htext := Receiver.dropLast_message hne
  have hafter := Receiver.afterSpace_message hne
  have hfit := length_message hlen
  have hnul : (0 : UInt8) ∉ (Receiver.message fields).dropLast :=
    fun h => notMem_message 0 (by decide) (by decide) (by decide) (List.mem_of_mem_dropLast h)
  have hkey := (Receiver.understood_message hne (List.Subset.refl fields)).keyword
  have hdl : (Receiver.message fields).dropLast.length < ctrlBufSize := by
    rw [List.length_dropLast]
    omega
  generalize hd : (Receiver.message fields).dropLast = d at *
  generalize ht : [44].intercalate (fields.map fun num => decimal num.toNat) = t at *
  -- the rest of the buffer is zero
  obtain ⟨n, hn⟩ : ∃ n, ctrlBufSize - d.length = n + 1 := ⟨ctrlBufSize - d.length - 1, by omega⟩
  have hbuf : recvfrom zeroBuffer d = d ++ 0 :: List.replicate n 0 := by
    rw [recvfrom_zeroBuffer hdl.le, hn, List.replicate_succ]
  have hread : read (recvfrom zeroBuffer d) = some d := by
    rw [hbuf]
    exact read_append hnul _
  have hnot : d ≠ lookup := by
    rw [htext]
    intro h
    have hhead := congrArg List.head? h
    rw [List.head?_append] at hhead
    cases hhead
  have hrest : read ((recvfrom zeroBuffer d).drop 14) = some t := by
    rw [hbuf, htext, List.append_assoc, show 14 = Receiver.rexmit.length from rfl, List.drop_left]
    refine read_append (fun h => hnul ?_) _
    rw [htext]
    exact List.mem_append_right _ h
  have hscan : scan 32 (recvfrom zeroBuffer d) = some 13 := by
    rw [htext]
    exact Receiver.scan_rexmit t
  rw [hafter]
  exact Ctrl.handle_request hread hnot hkey hscan hrest

variable (params) in
/-- **The requests**, in any order and any number of times, leave the sender with the numbers that
the receiver asked for. -/
theorem handleAll_requests (hne : nums ≠ []) (hmod : nums.length % 10 ≠ 0)
    (hlt : ∀ num ∈ nums, num.toNat < 2 ^ 63) {reqs : List (List UInt8)}
    (hreqs : ∀ d ∈ reqs, d ∈ Receiver.requestDatagrams nums) (R : OrdSet UInt64) :
    ∃ R', Ctrl.handleAll params ⟨zeroBuffer, R⟩ reqs = some ⟨zeroBuffer, R'⟩ ∧
      ∀ num, num ∈ R'.keys ↔ num ∈ R.keys ∨ ∃ d ∈ reqs, Receiver.Carries d num := by
  induction reqs generalizing R with
  | nil => exact ⟨R, rfl, by simp⟩
  | cons d reqs ih =>
    obtain ⟨batch, hb, rfl⟩ : ∃ batch ∈ Receiver.batches [] nums,
        (Receiver.message batch).dropLast = d := by
      have hd := hreqs d List.mem_cons_self
      rwa [Receiver.requestDatagrams_eq hne, List.mem_map] at hd
    -- no batch is empty
    have hbne : batch ≠ [] := by
      rintro rfl
      have hz := (Receiver.nil_mem_batches nums [] (by simp)).1 hb
      rw [List.length_nil, Nat.zero_add] at hz
      exact hmod hz
    have hblen := Receiver.length_of_mem_batches nums [] (by simp) batch hb
    have hblt : ∀ num ∈ batch, num.toNat < 2 ^ 63 :=
      fun num hn => hlt num (Receiver.mem_of_mem_batches hb hn)
    obtain ⟨R', hR', hmem⟩ := ih (fun d hd => hreqs d (List.mem_cons_of_mem _ hd))
      (addToSet R (Receiver.afterSpace (Receiver.message batch).dropLast))
    refine ⟨R', ?_, fun num => ?_⟩
    · unfold Ctrl.handleAll at hR' ⊢
      rw [List.foldlM_cons, handle_message hbne hblen]
      exact hR'
    · rw [hmem, Receiver.mem_addToSet_message hbne hblt, List.exists_mem_cons_iff,
        Receiver.carries_message, or_assoc]

/-! ### A turn of `replay_loop` -/

variable {s s' t u : State} {stdin : List UInt8} {copyRequests old : List UInt64} {fifo : Fifo}
  {es : List Event} {ev : Event}

/-- What `replay_loop` sends for the numbers it has copied. -/
def Fifo.resends (fifo : Fifo) (psize : ℕ) (copyRequests : List UInt64) : List UInt64 :=
  copyRequests.filter fun num => (fifo.retrieve num).length = psize

/-- The blocks sent. -/
def Fifo.sends (fifo : Fifo) (psize : ℕ) (copyRequests : List UInt64) : List Package :=
  (fifo.resends psize copyRequests).map fun num => ⟨fifo.retrieve num, num⟩

theorem Fifo.sends_concat_pos {psize : ℕ} {num : UInt64} (h : (fifo.retrieve num).length = psize) :
    fifo.sends psize (copyRequests ++ [num]) =
      fifo.sends psize copyRequests ++ [⟨fifo.retrieve num, num⟩] := by
  unfold Fifo.sends Fifo.resends
  rw [List.filter_append, List.filter_cons_of_pos (by simpa using h), List.map_append]
  rfl

theorem Fifo.sends_concat_neg {psize : ℕ} {num : UInt64} (h : (fifo.retrieve num).length ≠ psize) :
    fifo.sends psize (copyRequests ++ [num]) = fifo.sends psize copyRequests := by
  unfold Fifo.sends Fifo.resends
  rw [List.filter_append, List.filter_cons_of_neg (by simpa using h), List.filter_nil, List.append_nil]

/-- The blocks that `replay_loop` has sent. -/
def resent (log : List Entry) : List Package :=
  log.filterMap fun | .resent num data => some ⟨data, num⟩ | _ => none

theorem resent_snoc {log : List Entry} {o : Entry} (h : ∀ num data, o ≠ .resent num data) :
    resent (log ++ [o]) = resent log := by
  cases o <;> simp_all [resent]

theorem resent_snoc_resent (log : List Entry) (num : UInt64) (data : List UInt8) :
    resent (log ++ [.resent num data]) = resent log ++ [⟨data, num⟩] := by
  simp [resent]

/-- The turn is not over, and until its copy `ctrl_loop` inserts no number but those of `nums`. -/
def InTurn (nums : List UInt64) (s : State) (ev : Event) : Prop :=
  s.replay ≠ .test ∧ ∀ r num rest, ev = .ctrl r → s.ctrl = .insert (num :: rest) →
    s.replay = .lockRequests → num ∈ nums

/-- **The steps of a turn**, of all threads. -/
def Turn (params : Parameters) (nums : List UInt64) : State → Event → State → Prop :=
  Guarded (Fires (step params)) (InTurn nums)

/-- `replay_loop` has locked `mutex_mcast_socket`, with this fifo. -/
def LockedWith (params : Parameters) (nums : List UInt64) (s : State) (es : List Event)
    (fifo : Fifo) : Prop :=
  ∃ es₁ es₂ t b, es = es₁ ++ .replay :: es₂ ∧ Run (Turn params nums) s es₁ t ∧
    t.replay = .lockMcast b ∧ t.mutexMcastSocket = none ∧ t.fifo = fifo

theorem LockedWith.snoc {nums : List UInt64} (h : LockedWith params nums s es fifo) (ev : Event) :
    LockedWith params nums s (es ++ [ev]) fifo := by
  obtain ⟨es₁, es₂, t, b, rfl, hrun, hpc, hfree, hfifo⟩ := h
  exact ⟨es₁, es₂ ++ [ev], t, b, by simp, hrun, hpc, hfree, hfifo⟩

/-- The copy holds the numbers, each once. -/
def Batch (nums copyRequests : List UInt64) : Prop :=
  copyRequests.Nodup ∧ ∀ k, k ∈ copyRequests ↔ k ∈ nums

/-- **How far a turn is** that began in `s` with the requests `nums`. -/
def TurnOk (params : Parameters) (nums : List UInt64) (s : State) (es : List Event) (u : State) : Prop :=
  match u.replay with
  | .lockRequests | .copy =>
    (∀ k, k ∈ u.retransmisionRequests.keys ↔ k ∈ nums) ∧ resent u.log = resent s.log
  | .clear b | .unlockRequests b | .lockMcast b => Batch nums b ∧ resent u.log = resent s.log
  | .retrieve todo => LockedWith params nums s es u.fifo ∧ ∃ done, Batch nums (done ++ todo) ∧
      resent u.log = resent s.log ++ u.fifo.sends params.psize done
  | .send data num todo => LockedWith params nums s es u.fifo ∧ data = u.fifo.retrieve num ∧
      data.length = params.psize ∧ ∃ done, Batch nums (done ++ num :: todo) ∧
        resent u.log = resent s.log ++ u.fifo.sends params.psize done
  | .unlockMcast | .test => ∃ fifo b, LockedWith params nums s es fifo ∧ Batch nums b ∧
      resent u.log = resent s.log ++ fifo.sends params.psize b
  | .done => True

variable {nums : List UInt64}

/-- **Another thread** does not disturb the turn. -/
theorem TurnOk.frame (h : TurnOk params nums s es t) (hpc : u.replay = t.replay)
    (hlog : resent u.log = resent t.log) (hfifo : t.replay.inMcast → u.fifo = t.fifo)
    (hkeys : t.replay = .lockRequests ∨ t.replay = .copy →
      (∀ k, k ∈ t.retransmisionRequests.keys ↔ k ∈ nums) → ∀ k,
        k ∈ u.retransmisionRequests.keys ↔ k ∈ nums) : TurnOk params nums s (es ++ [ev]) u := by
  unfold TurnOk at h ⊢
  rw [hpc]
  cases hr : t.replay <;> rw [hr] at h hfifo hkeys <;> dsimp only at h ⊢
  case lockRequests | copy => exact ⟨hkeys (by simp) h.1, hlog.trans h.2⟩
  case clear | unlockRequests | lockMcast => exact ⟨h.1, hlog.trans h.2⟩
  case retrieve =>
    rw [hfifo rfl, hlog]
    exact ⟨h.1.snoc ev, h.2⟩
  case send =>
    rw [hfifo rfl, hlog]
    exact ⟨h.1.snoc ev, h.2⟩
  case unlockMcast | test =>
    obtain ⟨fifo, b, hl, hb⟩ := h
    rw [hlog]
    exact ⟨fifo, b, hl.snoc ev, hb⟩

/-- `main` leaves the fifo alone outside its section. -/
theorem MainStep.fifo_eq (h : MainStep params s s') (hout : s.main.inMcast = false) :
    s'.fifo = s.fifo := by
  cases h
  case enqueue hpc => rw [hpc] at hout; cases hout
  all_goals rfl

/-- **A step of `replay_loop`** in its turn. -/
theorem TurnOk.replay (h : TurnOk params nums s es t) (hrun : Run (Turn params nums) s es t)
    (hst : ReplayStep params t u) (hne : t.replay ≠ .test) :
    TurnOk params nums s (es ++ [.replay]) u := by
  unfold TurnOk at h
  cases hst with
  | lock hpc =>
    rw [hpc] at h
    exact h
  | copy hpc =>
    rw [hpc] at h
    refine ⟨⟨OrdMap.nodup_keys, h.1⟩, ?_⟩
    exact (resent_snoc (by simp)).trans h.2
  | clear hpc | unlockRequests hpc =>
    rw [hpc] at h
    exact h
  | @lockMcast b hpc hfree =>
    rw [hpc] at h
    refine ⟨⟨es, [], t, b, rfl, hrun, hpc, hfree, rfl⟩, [], h.1, ?_⟩
    refine (resent_snoc (by simp)).trans (h.2.trans ?_)
    exact (List.append_nil _).symm
  | @retrieve num todo hpc =>
    rw [hpc] at h
    obtain ⟨hl, done, hb, hlog⟩ := h
    by_cases hlen : (t.fifo.retrieve num).length = params.psize
    · rw [if_pos hlen]
      exact ⟨hl.snoc _, rfl, hlen, done, hb, hlog⟩
    · rw [if_neg hlen]
      refine ⟨hl.snoc _, done ++ [num], by rwa [List.append_assoc], ?_⟩
      rw [Fifo.sends_concat_neg hlen]
      exact hlog
  | retrieved hpc =>
    rw [hpc] at h
    obtain ⟨hl, done, hb, hlog⟩ := h
    rw [List.append_nil] at hb
    exact ⟨t.fifo, done, hl.snoc _, hb, hlog⟩
  | @send data num todo hpc =>
    rw [hpc] at h
    obtain ⟨hl, rfl, hlen, done, hb, hlog⟩ := h
    refine ⟨hl.snoc _, done ++ [num], by rwa [List.append_assoc], ?_⟩
    show resent (t.log ++ _) = resent s.log ++ t.fifo.sends params.psize (done ++ [num])
    rw [resent_snoc_resent, hlog, Fifo.sends_concat_pos hlen, List.append_assoc]
  | unlockMcast hpc =>
    rw [hpc] at h
    obtain ⟨fifo, b, hl, hb, hlog⟩ := h
    exact ⟨fifo, b, hl.snoc _, hb, (resent_snoc (by simp)).trans hlog⟩
  | again hpc | done hpc => exact absurd hpc hne

/-- **One step** of any thread. -/
theorem TurnOk.step (h : TurnOk params nums s es t) (hrun : Run (Turn params nums) s es t)
    (hl : Locked t) (hst : Turn params nums t ev u) : TurnOk params nums s (es ++ [ev]) u := by
  obtain ⟨hst, hne, hins⟩ := hst
  cases ev <;> unfold Fires Transmitter.step at hst <;> dsimp only at hst
  case signal =>
    cases hst
    exact h.frame rfl rfl (fun _ => rfl) fun _ hk => hk
  case main =>
    have hm := stepMain_cases hst
    obtain ⟨-, -, -, hr⟩ := hm.moves
    obtain ⟨hreq, hlog⟩ := hm.records
    refine h.frame hr ?_ (fun hin => hm.fifo_eq (hl.main_or_replay hin)) fun _ hk => by rwa [hreq]
    rcases hlog with he | ⟨audioData, -, he⟩
    · rw [he]
    · rw [he, resent_snoc (by simp)]
  case ctrl r =>
    have hc := stepCtrl_cases hst
    obtain ⟨-, -, -, hr⟩ := hc.moves
    cases hc with
    | @insert num rest hpc =>
      refine h.frame hr (resent_snoc (by simp)) (fun _ => rfl) fun hat hk => ?_
      -- `ctrl_loop` has `mutex_requests`, so this is before the copy
      have hlock : t.replay = .lockRequests := by
        refine hat.resolve_right fun hcopy => ?_
        have hout := hl.ctrl_or_replay (by rw [hpc]; rfl)
        rw [hcopy] at hout
        cases hout
      have hnum := hins r num rest rfl hpc hlock
      intro k
      show k ∈ (t.retransmisionRequests.insert num).keys ↔ _
      rw [OrdSet.mem_keys_insert, hk]
      exact ⟨fun h => h.elim (fun h => h ▸ hnum) id, Or.inr⟩
    | poll | ready | other | again | done | receive | lock | inserted | unlock =>
      exact h.frame rfl rfl (fun _ => rfl) fun _ hk => hk
  case replay => exact h.replay hrun (stepReplay_cases hst) hne

/-- **A turn of `replay_loop`**, among the steps of the other threads: the blocks of its requests are
sent that are in the fifo when it locks `mutex_mcast_socket`, each once. -/
theorem turn_ok (hlock : Locked s) (hpc : s.replay = .lockRequests)
    (hkeys : ∀ k, k ∈ s.retransmisionRequests.keys ↔ k ∈ nums)
    (hrun : Run (Turn params nums) s es s') (hend : s'.replay = .test) :
    ∃ fifo b, LockedWith params nums s es fifo ∧ Batch nums b ∧
      resent s'.log = resent s.log ++ fifo.sends params.psize b := by
  have hall : Locked s' ∧ TurnOk params nums s es s' := by
    clear hend
    induction hrun with
    | nil =>
      refine ⟨hlock, ?_⟩
      unfold TurnOk
      rw [hpc]
      exact ⟨hkeys, rfl⟩
    | snoc hr hst ih => exact ⟨step_locked ih.1 hst.1, ih.2.step hr ih.1 hst⟩
  have hturn := hall.2
  unfold TurnOk at hturn
  rwa [hend] at hturn

theorem turn_cons (hst : step params s .replay = some t) (hne : s.replay ≠ .test)
    (hr : Run (Turn params nums) t es u) : Run (Turn params nums) s (.replay :: es) u :=
  (Run.single ⟨hst, hne, nofun⟩).append hr

variable (params nums) in
/-- Lines 175-178: the blocks of `todo` are sent. -/
theorem run_retrieve (todo : List UInt64) : ∀ s : State, s.replay = .retrieve todo →
    ∃ n s', Run (Turn params nums) s (List.replicate n .replay) s' ∧ s'.replay = .retrieve [] := by
  induction todo with
  | nil => exact fun s hs => ⟨0, s, Run.nil, hs⟩
  | cons num todo ih =>
    intro s hs
    have hne : s.replay ≠ .test := by
      rw [hs]
      nofun
    have hret : step params s .replay = some { s with
        replay := if (s.fifo.retrieve num).length = params.psize
          then .send (s.fifo.retrieve num) num todo else .retrieve todo } := by
      show stepReplay params s = _
      unfold stepReplay
      rw [hs]
    by_cases hlen : (s.fifo.retrieve num).length = params.psize
    · rw [if_pos hlen] at hret
      obtain ⟨n, s', hn, hpc⟩ := ih { s with
        replay := .retrieve todo, log := s.log ++ [.resent num (s.fifo.retrieve num)] } rfl
      exact ⟨n + 2, s', turn_cons hret hne (turn_cons rfl nofun hn), hpc⟩
    · rw [if_neg hlen] at hret
      obtain ⟨n, s', hn, hpc⟩ := ih { s with replay := .retrieve todo } rfl
      exact ⟨n + 1, s', turn_cons hret hne hn, hpc⟩

variable (params nums) in
/-- There is a turn where nobody holds a mutex. -/
theorem run_round (hpc : s.replay = .lockRequests) (hreq : s.mutexRequests = none)
    (hmc : s.mutexMcastSocket = none) :
    ∃ n s', Run (Turn params nums) s (List.replicate n .replay) s' ∧ s'.replay = .test := by
  have hne : s.replay ≠ .test := by
    rw [hpc]
    nofun
  have hlock : step params s .replay = some { s with
      replay := .copy, mutexRequests := some .replay } := by
    show stepReplay params s = _
    unfold stepReplay
    rw [hpc]
    exact if_pos hreq
  have hmcast : step params { s with
      replay := .lockMcast s.retransmisionRequests.keys
      retransmisionRequests := OrdMap.empty
      mutexRequests := none
      log := s.log ++ [.copied s.retransmisionRequests.keys] } .replay = some _ := if_pos hmc
  obtain ⟨n, u, hn, hu⟩ := run_retrieve params nums s.retransmisionRequests.keys { s with
    replay := .retrieve s.retransmisionRequests.keys
    retransmisionRequests := OrdMap.empty
    mutexRequests := none
    mutexMcastSocket := some .replay
    log := s.log ++ [.copied s.retransmisionRequests.keys] ++ [.locked] } rfl
  have hlast : step params u .replay = some { u with replay := .unlockMcast } := by
    show stepReplay params u = _
    unfold stepReplay
    rw [hu]
  have hune : u.replay ≠ .test := by
    rw [hu]
    nofun
  refine ⟨5 + (n + 2), { u.record .unlocked with mutexMcastSocket := none, replay := .test }, ?_, rfl⟩
  rw [List.replicate_add, List.replicate_add n]
  exact (turn_cons hlock hne (turn_cons rfl nofun (turn_cons rfl nofun (turn_cons rfl nofun
    (turn_cons hmcast nofun Run.nil))))).append
      (hn.append (turn_cons hlast hune (turn_cons rfl nofun Run.nil)))

end Transmitter

/-! ### The round -/

open Receiver Transmitter

/-- Datagrams are decoded, whatever the byte orders of the two hosts. -/
theorem decode_all (e e' : Endian) (sessionId : UInt64) (g : UInt64 → List UInt8)
    (ns : List UInt64) : (ns.map fun num => sendMcast e sessionId num (g num)).mapM (Receiver.decode e') =
      some (ns.map fun num => ⟨sessionId, num, g num⟩) := by
  induction ns with
  | nil => rfl
  | cons num ns ih =>
    have hd :
        Receiver.decode e' (sendMcast e sessionId num (g num)) = some ⟨sessionId, num, g num⟩ := by
      rw [sendMcast_eq, ← sendMcast_eq e', Receiver.decode_sendMcast]
    rw [List.map_cons, List.mapM_cons, hd, ih]
    rfl

/-- A reordered image is the image of a reordered list. -/
theorem exists_perm_map {α β : Type*} {f : α → β} {m : List β} : ∀ {l : List α}, m.Perm (l.map f) →
    ∃ l' : List α, l'.Perm l ∧ m = l'.map f := by
  induction m with
  | nil =>
    intro l h
    have hl : l = [] := List.map_eq_nil_iff.1 h.symm.eq_nil
    exact ⟨[], by rw [hl], rfl⟩
  | cons y m ih =>
    intro l h
    obtain ⟨x, hx, rfl⟩ := List.mem_map.1 (h.subset List.mem_cons_self)
    obtain ⟨pre, post, rfl⟩ := List.append_of_mem hx
    have hmid : (f x :: m).Perm (f x :: (pre ++ post).map f) :=
      h.trans ((List.perm_middle (a := x)).map f)
    obtain ⟨l', hl', rfl⟩ := ih hmid.cons_inv
    exact ⟨x :: l', (hl'.cons x).trans List.perm_middle.symm, rfl⟩

/-- A number is asked for by one of the requests if it is missing. -/
theorem carried_iff {nums : List UInt64} (hne : nums ≠ []) (hnd : nums.Nodup)
    {reqs : List (List UInt8)} (hreqs : ∀ d, d ∈ reqs ↔ d ∈ requestDatagrams nums) (num : UInt64) :
    (∃ d ∈ reqs, Carries d num) ↔ num ∈ nums := by
  constructor
  · rintro ⟨d, hd, hc⟩
    rw [hreqs, requestDatagrams_eq hne, List.mem_map] at hd
    obtain ⟨batch, hb, rfl⟩ := hd
    exact mem_of_mem_batches hb (carries_message.1 hc)
  · intro hnum
    have hone := requested_once hnd hnum
    obtain ⟨d, hd, hc⟩ := List.countP_pos_iff.1 (by rw [hone]; exact Nat.one_pos)
    exact ⟨d, (hreqs d).2 hd, by simpa using hc⟩

/-- **A round of retransmissions.** A receiver misses packages, their count not a multiple of ten.
However its requests are reordered or repeated on their way, `ctrl_loop` takes the missing numbers and
no others from them. In every run of a sender, a turn of `replay_loop` that begins with these requests,
among the steps of all threads, sends those blocks that are in the fifo when it locks
`mutex_mcast_socket`, if no other number is inserted before it copies the requests; what is in the set
after it was inserted after the copy. In whatever order these blocks come to the receiver, on a host of
any byte order, each is stored in its place, and what is missing then are the numbers whose block the
fifo had lost. -/
theorem repair_round (W : Wild) (params : Parameters) (e e' : Endian) (sessionId : UInt64)
    {len : UInt64} (hlen : 0 < len.toNat) (hpsize : params.psize = len.toNat) {b : Buffer}
    (hb : BufOk len b) (hmod : b.set.keys.length % 10 ≠ 0)
    (hlt : ∀ k ∈ b.set.keys, k.toNat < 2 ^ 63)
    {reqs : List (List UInt8)}
    (hreqs : ∀ d, d ∈ reqs ↔ d ∈ requestDatagrams (b.snapshot W)) :
    (∃ R, Ctrl.handleAll params ⟨zeroBuffer, OrdMap.empty⟩ reqs = some ⟨zeroBuffer, R⟩ ∧
      ∀ k, k ∈ R.keys ↔ k ∈ b.set.keys) ∧
    ∀ (stdin : List UInt8) (es₀ : List Transmitter.Event) (s : Transmitter.State),
      Run (Fires (Transmitter.step params)) (Transmitter.State.init params stdin) es₀ s →
      s.replay = .lockRequests → (∀ k, k ∈ s.retransmisionRequests.keys ↔ k ∈ b.set.keys) →
      (s.mutexRequests = none → s.mutexMcastSocket = none →
        ∃ es s', Run (Turn params b.set.keys) s es s' ∧ s'.replay = .test) ∧
      ∀ es s', Run (Turn params b.set.keys) s es s' → s'.replay = .test →
        (∀ k, k ∈ s'.retransmisionRequests.keys ↔ Pending s'.log k) ∧
        ∃ fifo batch, LockedWith params b.set.keys s es fifo ∧ Batch b.set.keys batch ∧
          resent s'.log = resent s.log ++ fifo.sends params.psize batch ∧
          ∀ datagrams : List (List UInt8), datagrams.Perm
            ((fifo.sends params.psize batch).map fun p => sendMcast e sessionId p.num p.data) →
            ∃ ds b', datagrams.mapM (Receiver.decode e') = some ds ∧ Stores W b ds b' ∧
              b'.packages.values = b.packages.values.map (fun p =>
                if p.data = [] ∧ (fifo.retrieve p.num).length = params.psize
                then ⟨fifo.retrieve p.num, p.num⟩ else p) ∧
              ∀ k, k ∈ b'.set.keys ↔
                k ∈ b.set.keys ∧ (fifo.retrieve k).length ≠ params.psize := by
  rw [snapshot_eq hb] at hreqs
  have hne : b.set.keys ≠ [] := by
    intro h
    rw [h] at hmod
    exact hmod rfl
  obtain ⟨R, hR, hmem⟩ := handleAll_requests params hne hmod hlt
    (fun d hd => (hreqs d).1 hd) OrdMap.empty
  refine ⟨⟨R, hR, fun k => ?_⟩, fun stdin es₀ s hrun₀ hpc hkeys => ⟨fun hreq hmc => ?_, ?_⟩⟩
  · rw [hmem, carried_iff hne OrdMap.nodup_keys hreqs]
    simp
  · obtain ⟨n, s', hrun, hend⟩ := run_round params b.set.keys hpc hreq hmc
    exact ⟨_, s', hrun, hend⟩
  intro es s' hrun hend
  have hp : 1 ≤ params.psize := by omega
  have hreach := hrun₀.append (hrun.mono fun _ _ _ h => h.1)
  obtain ⟨-, hreqOk, -⟩ := run_rounds hp hreach
  refine ⟨hreqOk.keys (by rw [hend]; simp), ?_⟩
  obtain ⟨fifo, batch, hlocked, hb', hlog⟩ :=
    turn_ok (run_senderOk hp hrun₀).locked hpc hkeys hrun hend
  refine ⟨fifo, batch, hlocked, hb', hlog, fun datagrams hperm => ?_⟩
  obtain ⟨hnodup, hbatch⟩ := hb'
  rw [Fifo.sends, List.map_map] at hperm
  obtain ⟨ns, hns, rfl⟩ := exists_perm_map hperm
  have hin : ∀ k, k ∈ ns ↔ k ∈ b.set.keys ∧ (fifo.retrieve k).length = params.psize := by
    intro k
    rw [hns.mem_iff, Fifo.resends, List.mem_filter, hbatch, decide_eq_true_eq]
  obtain ⟨b', hst, -, hv, hk⟩ := fills_ok (W := W) sessionId (g := fifo.retrieve)
    (hns.nodup_iff.2 (hnodup.filter _))
    (fun k hk => List.ne_nil_of_length_pos (by rw [((hin k).1 hk).2, hpsize]; exact hlen)) hb
    fun k hk => ((hin k).1 hk).1
  refine ⟨_, b', decode_all e e' sessionId fifo.retrieve ns, hst, ?_, fun k => ?_⟩
  · rw [hv]
    refine List.map_congr_left fun p hp => if_congr (and_congr_right fun hd => ?_) rfl rfl
    -- a package without data has a key
    have hkey : p.num ∈ b.set.keys := by
      obtain ⟨it, hit⟩ := NodeList.exists_designates hp
      refine OrdMap.mem_keys.2 ⟨it, (hb.keys _ _).2 ?_⟩
      rw [← hd]
      exact hit
    rw [hin]
    exact and_iff_right hkey
  · rw [hk, hin]
    tauto

/-- Package 2 is missing, between those of numbers 0 and 4. -/
def holed : Buffer :=
  (({ Buffer.init 6 with size := 6 / 2 }.append 0 [1, 2]).appendDummy 2).append 4 [5, 6]

theorem holed_ok : BufOk 2 holed :=
  (((init_ok 2 6).first rfl (by simp)).appendDummy (by decide) rfl (by decide)).append rfl
    (by decide) (by simp) rfl

def holedSender : Transmitter.Parameters := ⟨[], 0, 2, 4, []⟩

/-- Two blocks are sent, and 2 is asked for. -/
def askedFor : List Transmitter.Event :=
  List.replicate 16 (.main (some 2)) ++ List.replicate 6 (.ctrl (some [2]))

/-- A third block is sent between the copy and the lock. -/
def disturbed : List Transmitter.Event :=
  List.replicate 4 .replay ++ List.replicate 8 (.main (some 2)) ++ List.replicate 5 .replay

/-- A step of a turn that is not `ctrl_loop`'s. -/
def quiet (s : Transmitter.State) : Transmitter.Event → Bool
  | .ctrl _ => false
  | _ => s.replay ≠ .test

theorem inTurn_of_quiet {nums : List UInt64} {s : Transmitter.State} {ev : Transmitter.Event}
    (h : quiet s ev) : InTurn nums s ev := by
  refine ⟨fun hpc => ?_, ?_⟩
  · unfold quiet at h
    rw [hpc] at h
    split at h <;> simp at h
  · rintro r num rest rfl
    cases h

/-- The request comes twice. -/
theorem repair_round_two :
    (∃ R, Ctrl.handleAll holedSender ⟨zeroBuffer, OrdMap.empty⟩
        (requestDatagrams (holed.snapshot ⟨fun _ _ => 0, fun _ _ => 0⟩) ++
          requestDatagrams (holed.snapshot ⟨fun _ _ => 0, fun _ _ => 0⟩)) =
        some ⟨zeroBuffer, R⟩ ∧ ∀ k, k ∈ R.keys ↔ k = 2) ∧
      ∃ s s', Run (Fires (Transmitter.step holedSender))
          (Transmitter.State.init holedSender [1, 2, 3, 4, 5, 6]) askedFor s ∧
        Run (Turn holedSender [2]) s disturbed s' ∧ s'.replay = .test ∧
        resent s'.log = [⟨[3, 4], 2⟩] ∧
        ∃ ds b', [sendMcast .little 9 2 [3, 4]].mapM (Receiver.decode .big) = some ds ∧
          Stores ⟨fun _ _ => 0, fun _ _ => 0⟩ holed ds b' ∧
          b'.packages.values = [⟨[1, 2], 0⟩, ⟨[3, 4], 2⟩, ⟨[5, 6], 4⟩] := by
  have hkeys : holed.set.keys = [2] := rfl
  have hlen : 0 < (2 : UInt64).toNat := by decide
  have hreqs : ∀ d, d ∈ requestDatagrams (holed.snapshot ⟨fun _ _ => 0, fun _ _ => 0⟩) ++
      requestDatagrams (holed.snapshot ⟨fun _ _ => 0, fun _ _ => 0⟩) ↔
        d ∈ requestDatagrams (holed.snapshot ⟨fun _ _ => 0, fun _ _ => 0⟩) := fun d => by
    rw [List.mem_append, or_self]
  obtain ⟨⟨R, hR, hRkeys⟩, h⟩ := repair_round ⟨fun _ _ => 0, fun _ _ => 0⟩ holedSender .little .big 9 hlen
    rfl holed_ok (by rw [hkeys]; decide) (by rw [hkeys]; simp) hreqs
  rw [hkeys] at h hRkeys
  have he : ((exec (Transmitter.step holedSender) (Transmitter.State.init holedSender [1, 2, 3, 4, 5, 6])
      askedFor).bind fun s => (exec (guarded (Transmitter.step holedSender) fun s ev => quiet s ev) s
        disturbed).map fun s' => ((s.replay, s.retransmisionRequests.keys, resent s.log),
          s'.replay, resent s'.log)) =
      some ((.lockRequests, [2], []), .test, [⟨[3, 4], 2⟩]) := by decide
  obtain ⟨s, hs, hs'⟩ := Option.bind_eq_some_iff.1 he
  obtain ⟨s', hturn, hview⟩ := Option.map_eq_some_iff.1 hs'
  simp only [Prod.mk.injEq] at hview
  obtain ⟨⟨hpc, hreq, hold⟩, hend, hnew⟩ := hview
  have hrun : Run (Turn holedSender [2]) s disturbed s' :=
    (exec_guarded hturn).mono fun _ _ _ hst => ⟨hst.1, inTurn_of_quiet hst.2⟩
  obtain ⟨-, hall⟩ := h _ _ s (exec_run hs) hpc fun k => by rw [hreq]
  obtain ⟨-, fifo, batch, -, ⟨hnodup, hbatch⟩, hlog, hstore⟩ := hall disturbed s' hrun hend
  -- the batch is that request, and its block was in the fifo
  have hb : batch = [2] := List.perm_singleton.1
    ((List.perm_ext_iff_of_nodup hnodup (List.nodup_singleton 2)).2 hbatch)
  rw [hold, hnew, hb, List.nil_append] at hlog
  have hret : fifo.retrieve 2 = [3, 4] := by
    unfold Fifo.sends at hlog
    have hmem : (⟨[3, 4], 2⟩ : Transmitter.Package) ∈
        (fifo.resends 2 [2]).map fun num => ⟨fifo.retrieve num, num⟩ := by
      rw [show (2 : ℕ) = holedSender.psize from rfl, ← hlog]
      exact List.mem_singleton_self _
    obtain ⟨num, -, hp⟩ := List.mem_map.1 hmem
    simp only [Transmitter.Package.mk.injEq] at hp
    rw [← hp.2, hp.1]
  obtain ⟨ds, b', hds, hst, hv, -⟩ := hstore [sendMcast .little 9 2 [3, 4]] (by rw [hb, ← hlog]; rfl)
  refine ⟨⟨R, hR, fun k => by rw [hRkeys, List.mem_singleton]⟩, s, s', exec_run hs, hrun, hend, hnew,
    ds, b', hds, hst, ?_⟩
  rw [hv]
  have hvals : holed.packages.values = [⟨[1, 2], 0⟩, ⟨[], 2⟩, ⟨[5, 6], 4⟩] := rfl
  simp [hvals, hret, holedSender]

end SikMimuw
