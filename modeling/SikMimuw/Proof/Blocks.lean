import SikMimuw.Lib.Window
import SikMimuw.Model.Wire
import SikMimuw.Proof.Sender

/-!
# What the sender multicasts

The blocks that `main` sends are the full reads from `stdin`, numbered by `PSIZE`, and the fifo
holds the last `FSIZE / PSIZE` of them (`StreamOk`). A retransmission is taken from the fifo,
so it repeats a block (`Repeats`).

* `MainStep.streamOk`: the step lemma; the other threads leave `main`'s variables alone (`Frame`).
* `datagrams_ok`: every datagram of every run.
-/

namespace SikMimuw.Transmitter

open Lts Mutex

variable {params : Parameters} {stdin : List UInt8} {s s' : State} {l : List Package}
  {log : List Entry}

/-- The blocks that `main` has sent. -/
def originals (log : List Entry) : List Package :=
  log.filterMap fun | .sent num data => some ⟨data, num⟩ | _ => none

/-- The full reads. -/
def fullReads (psize : ℕ) (reads : List (List UInt8)) : List (List UInt8) :=
  reads.filter fun r => r.length = psize

/-- Block `k` has number `k * psize`. -/
def Numbered (psize : ℕ) (l : List Package) : Prop :=
  ∀ k p, l[k]? = some p → p.num = UInt64.ofNat (k * psize)

/-- The block that `main` has read and not sent yet. -/
def MainPc.held : MainPc → List (List UInt8)
  | .lock audioData | .send audioData => [audioData]
  | _ => []

/-- The blocks that `byte_num` counts: not the one being sent. -/
def State.counted (s : State) : List Package :=
  match s.main with
  | .enqueue _ | .advance => (originals s.log).dropLast
  | _ => originals s.log

/-- The blocks that went through the fifo. -/
def State.queued (s : State) : List Package :=
  match s.main with
  | .enqueue _ => (originals s.log).dropLast
  | _ => originals s.log

/-- **The invariant of `main`.** -/
structure StreamOk (params : Parameters) (stdin : List UInt8) (s : State) : Prop where
  stdin : s.reads.flatten ++ s.stdin = stdin
  maxCount : s.fifo.maxCount = params.fsize / params.psize
  blocks : (originals s.log).map Package.data ++ s.main.held = fullReads params.psize s.reads
  nums : Numbered params.psize (originals s.log)
  byteNum : s.byteNum = UInt64.ofNat (s.counted.length * params.psize)
  fifo : s.fifo.list = s.queued.rtake s.fifo.maxCount
  last : ∀ audioData, s.main = .enqueue audioData →
    (originals s.log).getLast? = some ⟨audioData, s.byteNum⟩
  sentOne : s.main = .advance → originals s.log ≠ []

/-! ### The fifo and the history -/

/-- **`add_to_queue`** keeps the last `max_count` of the packages that went through. -/
theorem addToQueue_list {fifo : Fifo} (h : fifo.list = l.rtake fifo.maxCount) (data : List UInt8)
    (num : UInt64) :
    (fifo.addToQueue data num).list = (l ++ [(⟨data, num⟩ : Package)]).rtake fifo.maxCount := by
  unfold Fifo.addToQueue
  dsimp only
  rw [h, Window.rtake_snoc]

theorem retrieve_mem {fifo : Fifo} {num : UInt64} (h : fifo.retrieve num ≠ []) :
    ⟨fifo.retrieve num, num⟩ ∈ fifo.list := by
  unfold Fifo.retrieve at h ⊢
  cases hf : fifo.list.find? (·.num = num) with
  | none => simp [hf] at h
  | some p =>
    have hp : p.num = num := by simpa using List.find?_some hf
    subst hp
    exact List.mem_of_find?_eq_some hf

theorem originals_snoc_sent (num : UInt64) (data : List UInt8) :
    originals (log ++ [.sent num data]) = originals log ++ [⟨data, num⟩] := by
  simp [originals]

theorem originals_snoc {o : Entry} (h : ∀ num data, o ≠ .sent num data) :
    originals (log ++ [o]) = originals log := by
  cases o <;> simp_all [originals]

theorem Numbered.snoc {psize : ℕ} {p : Package} (h : Numbered psize l)
    (hp : p.num = UInt64.ofNat (l.length * psize)) : Numbered psize (l ++ [p]) := by
  intro k q hk
  rcases lt_trichotomy k l.length with hlt | rfl | hgt
  · exact h k q (by rwa [List.getElem?_append_left hlt] at hk)
  · simp only [List.getElem?_concat_length, Option.some.injEq] at hk
    subst hk
    exact hp
  · rw [List.getElem?_eq_none (by rw [List.length_append, List.length_singleton]; omega)] at hk
    cases hk

/-! ### The steps -/

/-- A step that leaves `main` and its variables alone. -/
structure Frame (s s' : State) : Prop where
  stdin : s'.stdin = s.stdin
  reads : s'.reads = s.reads
  byteNum : s'.byteNum = s.byteNum
  fifo : s'.fifo = s.fifo
  main : s'.main = s.main
  originals : originals s'.log = originals s.log

theorem Frame.counted (h : Frame s s') : s'.counted = s.counted := by
  unfold State.counted
  rw [h.main, h.originals]

theorem Frame.queued (h : Frame s s') : s'.queued = s.queued := by
  unfold State.queued
  rw [h.main, h.originals]

theorem StreamOk.frame (hs : StreamOk params stdin s) (h : Frame s s') : StreamOk params stdin s' where
  stdin := by rw [h.reads, h.stdin]; exact hs.stdin
  maxCount := by rw [h.fifo]; exact hs.maxCount
  blocks := by rw [h.originals, h.main, h.reads]; exact hs.blocks
  nums := by rw [h.originals]; exact hs.nums
  byteNum := by rw [h.byteNum, h.counted]; exact hs.byteNum
  fifo := by rw [h.fifo, h.queued]; exact hs.fifo
  last := by rw [h.main, h.originals, h.byteNum]; exact hs.last
  sentOne := by rw [h.main, h.originals]; exact hs.sentOne

theorem init_streamOk (params : Parameters) (stdin : List UInt8) :
    StreamOk params stdin (State.init params stdin) where
  stdin := rfl
  maxCount := rfl
  blocks := rfl
  nums := by intro k p hk; simp [State.init, originals] at hk
  byteNum := by simp [State.init, State.counted, originals]
  fifo := by simp [State.init, State.queued, originals]
  last := by simp [State.init]
  sentOne := by simp [State.init]

theorem fullReads_snoc (psize : ℕ) (reads : List (List UInt8)) (r : List UInt8) :
    fullReads psize (reads ++ [r]) = fullReads psize reads ++ if r.length = psize then [r] else [] := by
  unfold fullReads
  rw [List.filter_append]
  by_cases h : r.length = psize <;> simp [h]

/-- **`main`** keeps its invariant. -/
theorem MainStep.streamOk (hs : StreamOk params stdin s) (h : MainStep params s s') :
    StreamOk params stdin s' := by
  obtain ⟨hstdin, hmax, hblocks, hnums, hbyte, hfifo, hlast, hsome⟩ := hs
  unfold State.counted at hbyte
  unfold State.queued at hfifo
  cases h with
  | poll hpc | ready hpc | again hpc | done hpc | lock hpc | unlock hpc =>
    rw [hpc] at hblocks hbyte hfifo
    exact ⟨hstdin, hmax, hblocks, hnums, hbyte, hfifo, nofun, nofun⟩
  | @read n hpc hle havail hend =>
    rw [hpc] at hblocks hbyte hfifo
    -- what is read goes from `stdin` to `reads`
    have hlen : (s.stdin.take n).length = n := by rw [List.length_take]; omega
    have hstdin' : (s.reads ++ [s.stdin.take n]).flatten ++ s.stdin.drop n = stdin := by
      rw [List.flatten_concat, List.append_assoc, List.take_append_drop, hstdin]
    simp only [MainPc.held, List.append_nil] at hblocks
    by_cases hfull : n = params.psize
    · rw [if_pos hfull]
      refine ⟨hstdin', hmax, ?_, hnums, hbyte, hfifo, nofun, nofun⟩
      dsimp only
      rw [fullReads_snoc, hlen, if_pos hfull, hblocks]
      rfl
    · rw [if_neg hfull]
      refine ⟨hstdin', hmax, ?_, hnums, hbyte, hfifo, nofun, nofun⟩
      dsimp only
      rw [fullReads_snoc, hlen, if_neg hfull, hblocks]
      rfl
  | @send audioData hpc =>
    rw [hpc] at hblocks hbyte hfifo
    -- the block is in the history now; line 241 queues it and line 242 counts it
    have hlog : originals (s.log ++ _) = _ := originals_snoc_sent s.byteNum audioData
    refine ⟨hstdin, hmax, ?_, ?_, ?_, ?_, ?_, nofun⟩
    · show (originals (s.log ++ _)).map _ ++ [] = _
      rw [hlog, List.append_nil, List.map_append]
      exact hblocks
    · show Numbered _ (originals (s.log ++ _))
      rw [hlog]
      exact hnums.snoc hbyte
    · show s.byteNum = UInt64.ofNat ((originals (s.log ++ _)).dropLast.length * _)
      rw [hlog, List.dropLast_concat]
      exact hbyte
    · show s.fifo.list = (originals (s.log ++ _)).dropLast.rtake _
      rw [hlog, List.dropLast_concat]
      exact hfifo
    · rintro d ⟨⟩
      show (originals (s.log ++ _)).getLast? = _
      rw [hlog, List.getLast?_concat]
      rfl
  | @enqueue audioData hpc =>
    have hl := hlast audioData hpc
    rw [hpc] at hblocks hbyte hfifo
    refine ⟨hstdin, hmax, hblocks, hnums, hbyte, ?_, nofun, ?_⟩
    · show _ = (originals s.log).rtake _
      rw [addToQueue_list hfifo, List.dropLast_append_getLast? _ hl]
      rfl
    · rintro - he
      dsimp only at he
      rw [he] at hl
      cases hl
  | advance hpc =>
    -- the block that was sent is counted
    have hpos := List.length_pos_of_ne_nil (hsome hpc)
    rw [hpc] at hblocks hbyte hfifo
    refine ⟨hstdin, hmax, hblocks, hnums, ?_, hfifo, nofun, nofun⟩
    show s.byteNum + _ = UInt64.ofNat ((originals s.log).length * _)
    rw [hbyte, ← UInt64.ofNat_add, List.length_dropLast, ← Nat.succ_mul]
    congr 2
    omega

theorem CtrlStep.frame (h : CtrlStep s s') : Frame s s' := by
  cases h
  case insert => exact ⟨rfl, rfl, rfl, rfl, rfl, originals_snoc (by simp)⟩
  all_goals constructor <;> rfl

theorem ReplayStep.frame (h : ReplayStep params s s') : Frame s s' := by
  cases h
  case copy | lockMcast | send | unlockMcast =>
    exact ⟨rfl, rfl, rfl, rfl, rfl, originals_snoc (by simp)⟩
  all_goals constructor <;> rfl

/-! ### Retransmissions -/

theorem counted_prefix_originals (s : State) : s.counted <+: originals s.log := by
  unfold State.counted
  split
  · exact List.dropLast_prefix _
  · exact List.dropLast_prefix _
  · exact List.prefix_rfl

/-- Outside its section `main` has queued the blocks it has sent. -/
theorem queued_eq_originals (h : s.main.inMcast = false) : s.queued = originals s.log := by
  unfold State.queued
  cases hm : s.main <;> rw [hm] at h
  all_goals first | rfl | cases h

/-- ... and counted them. -/
theorem counted_eq_originals (h : s.main.inMcast = false) : s.counted = originals s.log := by
  unfold State.counted
  cases hm : s.main <;> rw [hm] at h
  all_goals first | rfl | cases h

/-- What `replay_loop` sent, and what it is about to send, are blocks that `byte_num` counts. -/
structure Repeats (s : State) : Prop where
  resent : ∀ num data, .resent num data ∈ s.log → ⟨data, num⟩ ∈ s.counted
  next : ∀ data num todo, s.replay = .send data num todo → ⟨data, num⟩ ∈ s.counted

theorem Repeats.mono (hs : Repeats s) (hc : s.counted ⊆ s'.counted) (hr : s'.replay = s.replay)
    (hlog : ∀ num data, .resent num data ∈ s'.log → .resent num data ∈ s.log) : Repeats s' where
  resent num data hm := hc (hs.resent num data (hlog num data hm))
  next data num todo h := hc (hs.next data num todo (hr ▸ h))

/-- `main` counts more and more blocks. -/
theorem MainStep.counted (h : MainStep params s s') : s.counted ⊆ s'.counted := by
  cases h with
  | read hpc =>
    unfold State.counted
    rw [hpc]
    dsimp only
    split_ifs <;> exact List.Subset.refl _
  | poll hpc | ready hpc | again hpc | done hpc | lock hpc | enqueue hpc | unlock hpc =>
    simp [State.counted, hpc]
  | send hpc => simp [State.counted, hpc, State.record, originals_snoc_sent]
  | advance hpc =>
    simp only [State.counted, hpc]
    exact List.dropLast_subset _

theorem MainStep.records (h : MainStep params s s') :
    s'.retransmisionRequests = s.retransmisionRequests ∧ (s'.log = s.log ∨
      ∃ audioData, s.main = .send audioData ∧ s'.log = s.log ++ [.sent s.byteNum audioData]) := by
  cases h
  case send hpc => exact ⟨rfl, Or.inr ⟨_, hpc, rfl⟩⟩
  all_goals exact ⟨rfl, Or.inl rfl⟩

/-- **`replay_loop`** repeats blocks only. -/
theorem ReplayStep.repeats (hp : 1 ≤ params.psize) (hl : Locked s) (ho : StreamOk params stdin s)
    (hs : Repeats s) (h : ReplayStep params s s') : Repeats s' := by
  have hc := h.frame.counted
  obtain ⟨hres, hnext⟩ := hs
  rw [← hc] at hres hnext
  cases h with
  | lock | clear | unlockRequests | retrieved | again | done => exact ⟨hres, nofun⟩
  | copy | lockMcast | unlockMcast =>
    refine ⟨fun num data hm => hres num data ?_, nofun⟩
    simpa [State.record] using hm
  | @send data num todo hpc =>
    refine ⟨fun num' data' hm => ?_, nofun⟩
    rcases List.mem_append.1 hm with hm | hm
    · exact hres num' data' hm
    · rw [List.mem_singleton] at hm
      obtain ⟨rfl, rfl⟩ := Entry.resent.inj hm
      exact hnext data' num' todo hpc
  | @retrieve num todo hpc =>
    refine ⟨hres, fun data num' todo' hsend => ?_⟩
    dsimp only at hsend
    by_cases hlen : (s.fifo.retrieve num).length = params.psize
    · rw [if_pos hlen] at hsend
      obtain ⟨rfl, rfl, -⟩ := ReplayPc.send.inj hsend
      -- `main` is outside, so the fifo is the end of the counted blocks
      have hout : s.main.inMcast = false := hl.main_or_replay (by rw [hpc]; rfl)
      have hmem : ⟨s.fifo.retrieve num, num⟩ ∈ s.fifo.list :=
        retrieve_mem (List.ne_nil_of_length_pos (by omega))
      rw [ho.fifo, queued_eq_originals hout, ← counted_eq_originals hout, ← hc] at hmem
      exact List.mem_of_mem_drop hmem
    · rw [if_neg hlen] at hsend
      cases hsend

/-! ### Runs -/

/-- The invariant of the sender's threads. -/
structure SenderOk (params : Parameters) (stdin : List UInt8) (s : State) : Prop where
  locked : Locked s
  stream : StreamOk params stdin s
  repeats : Repeats s

theorem init_senderOk (params : Parameters) (stdin : List UInt8) :
    SenderOk params stdin (State.init params stdin) :=
  ⟨init_locked params stdin, init_streamOk params stdin, by simp [State.init], by simp [State.init]⟩

/-- **One step** of any thread keeps the invariant. -/
theorem step_senderOk {ev : Event} (hp : 1 ≤ params.psize) (hs : SenderOk params stdin s)
    (h : step params s ev = some s') : SenderOk params stdin s' := by
  have hl := step_locked hs.locked h
  cases ev <;> unfold step at h <;> dsimp only at h
  case signal =>
    cases h
    exact ⟨hl, hs.stream.frame ⟨rfl, rfl, rfl, rfl, rfl, rfl⟩, hs.repeats.resent, hs.repeats.next⟩
  case main =>
    have hm := stepMain_cases h
    refine ⟨hl, hm.streamOk hs.stream, hs.repeats.mono hm.counted hm.moves.2.2.2 ?_⟩
    intro num data hmem
    rcases hm.records.2 with he | ⟨_, -, he⟩ <;> rw [he] at hmem
    · exact hmem
    · simpa using hmem
  case ctrl =>
    have hc := stepCtrl_cases h
    refine ⟨hl, hs.stream.frame hc.frame, hs.repeats.mono ?_ hc.moves.2.2.2 ?_⟩
    · rw [hc.frame.counted]
      exact List.Subset.refl _
    · intro num data hmem
      cases hc
      case insert => simpa [State.record] using hmem
      all_goals exact hmem
  case replay =>
    have hr := stepReplay_cases h
    exact ⟨hl, hs.stream.frame hr.frame, hr.repeats hp hs.locked hs.stream hs.repeats⟩

theorem run_senderOk {es : List Event} (hp : 1 ≤ params.psize)
    (h : Run (Fires (step params)) (State.init params stdin) es s) : SenderOk params stdin s :=
  h.inv (init_senderOk params stdin) fun _ _ _ hI hst => step_senderOk hp hI hst

/-- The datagrams of a history. -/
def multicast (e : Endian) (sessionId : UInt64) (log : List Entry) : List (List UInt8) :=
  log.filterMap fun
    | .sent num data | .resent num data => some (sendMcast e sessionId num data)
    | _ => none

/-- The number and the payload of block `k`. -/
theorem StreamOk.block (hs : StreamOk params stdin s)
    (hbytes : (originals s.log).length * params.psize < 2 ^ 64) {k : ℕ} {p : Package}
    (hk : (originals s.log)[k]? = some p) :
    p.num.toNat = k * params.psize ∧ (fullReads params.psize s.reads)[k]? = some p.data := by
  have hlt : k < (originals s.log).length := (List.getElem?_eq_some_iff.1 hk).1
  have hle : k * params.psize ≤ (originals s.log).length * params.psize :=
    Nat.mul_le_mul_right _ hlt.le
  refine ⟨?_, ?_⟩
  · rw [hs.nums k p hk, UInt64.toNat_ofNat']
    exact Nat.mod_eq_of_lt (by omega)
  · rw [← hs.blocks, List.getElem?_append_left (by rwa [List.length_map]), List.getElem?_map, hk]
    rfl

theorem Repeats.mem_originals (hs : Repeats s) {num : UInt64} {data : List UInt8}
    (h : .sent num data ∈ s.log ∨ .resent num data ∈ s.log) : ⟨data, num⟩ ∈ originals s.log := by
  rcases h with h | h
  · exact List.mem_filterMap.2 ⟨_, h, rfl⟩
  · exact (counted_prefix_originals s).subset (hs.resent num data h)

/-- A datagram of a history is a block, sent for the first time or again. -/
theorem Repeats.datagram (hs : Repeats s) {e : Endian} {sessionId : UInt64} {d : List UInt8}
    (hd : d ∈ multicast e sessionId s.log) :
    ∃ p ∈ originals s.log, d = sendMcast e sessionId p.num p.data := by
  obtain ⟨o, ho, hod⟩ := List.mem_filterMap.1 hd
  cases o <;> simp only [Option.some.injEq, reduceCtorEq] at hod
  case sent num data => exact ⟨⟨data, num⟩, hs.mem_originals (Or.inl ho), hod.symm⟩
  case resent num data => exact ⟨⟨data, num⟩, hs.mem_originals (Or.inr ho), hod.symm⟩

/-- **Every datagram of every run** that sends fewer than `2 ^ 64` bytes:

* it carries the session id and, with number `n`, the full read number `n / PSIZE`;
* two datagrams with one number are the same;
* a retransmitted number is a multiple of `PSIZE` below `byte_num`. -/
theorem datagrams_ok (params : Parameters) (stdin : List UInt8) (e : Endian) (sessionId : UInt64)
    (hp : 1 ≤ params.psize) {es : List Event} {s : State}
    (h : Run (Fires (step params)) (State.init params stdin) es s)
    (hbytes : (originals s.log).length * params.psize < 2 ^ 64) :
    (∀ d ∈ multicast e sessionId s.log, ∃ n data,
      Receiver.decode e d = some ⟨sessionId, n, data⟩ ∧
      (fullReads params.psize s.reads)[n.toNat / params.psize]? = some data) ∧
    (∀ d₁ ∈ multicast e sessionId s.log, ∀ d₂ ∈ multicast e sessionId s.log, ∀ x₁ x₂,
      Receiver.decode e d₁ = some x₁ → Receiver.decode e d₂ = some x₂ → x₁.num = x₂.num →
      d₁ = d₂) ∧
    ∀ num data, .resent num data ∈ s.log →
      params.psize ∣ num.toNat ∧ num.toNat < s.byteNum.toNat := by
  have hok := run_senderOk hp h
  have hread : ∀ p ∈ originals s.log,
      (fullReads params.psize s.reads)[p.num.toNat / params.psize]? = some p.data := by
    intro p hm
    obtain ⟨k, hk⟩ := List.mem_iff_getElem?.1 hm
    obtain ⟨hnum, hdata⟩ := hok.stream.block hbytes hk
    rwa [hnum, Nat.mul_div_cancel _ (by omega)]
  refine ⟨fun d hd => ?_, fun d₁ hd₁ d₂ hd₂ x₁ x₂ hx₁ hx₂ hnum => ?_, fun num data hm => ?_⟩
  · obtain ⟨p, hm, rfl⟩ := hok.repeats.datagram hd
    exact ⟨p.num, p.data, Receiver.decode_sendMcast .., hread p hm⟩
  · obtain ⟨p, hpm, rfl⟩ := hok.repeats.datagram hd₁
    obtain ⟨q, hqm, rfl⟩ := hok.repeats.datagram hd₂
    rw [Receiver.decode_sendMcast, Option.some.injEq] at hx₁ hx₂
    subst hx₁ hx₂
    -- equal numbers find the same read
    have hdata : some p.data = some q.data := by
      rw [← hread p hpm, ← hread q hqm]
      exact congrArg (fun n : UInt64 => (fullReads params.psize s.reads)[n.toNat / params.psize]?) hnum
    rw [Option.some.injEq] at hdata
    dsimp only at hnum
    rw [hnum, hdata]
  · have hc := hok.repeats.resent num data hm
    obtain ⟨k, hk⟩ := List.mem_iff_getElem?.1 hc
    have hlt : k < s.counted.length := (List.getElem?_eq_some_iff.1 hk).1
    -- the counted blocks come first among those sent
    obtain ⟨t, ht⟩ := counted_prefix_originals s
    have hk' : (originals s.log)[k]? = some ⟨data, num⟩ := by
      rw [← ht, List.getElem?_append_left hlt]
      exact hk
    have hle : s.counted.length * params.psize ≤ (originals s.log).length * params.psize :=
      Nat.mul_le_mul_right _ (counted_prefix_originals s).length_le
    obtain ⟨hnum, -⟩ := hok.stream.block hbytes hk'
    dsimp only at hnum
    rw [hnum, hok.stream.byteNum, UInt64.toNat_ofNat', Nat.mod_eq_of_lt (by omega)]
    exact ⟨Nat.dvd_mul_left _ _, Nat.mul_lt_mul_of_pos_right hlt (by omega)⟩

/-- `main` sends two blocks of two bytes, `ctrl_loop` inserts 0 and 1, and `replay_loop` makes a
round. -/
def twoBlocks : List Event :=
  List.replicate 16 (.main (some 2)) ++ List.replicate 7 (.ctrl (some [0, 1])) ++
    List.replicate 10 .replay

/-- Block 0 comes twice, and block 1 carries the second read. -/
theorem datagrams_ok_repeated : ∃ s,
    Run (Fires (step ⟨[], 0, 2, 4, []⟩)) (State.init ⟨[], 0, 2, 4, []⟩ [1, 2, 3, 4]) twoBlocks s ∧
      (∃ n data, Receiver.decode .little (sendMcast .little 1 2 [3, 4]) = some ⟨1, n, data⟩ ∧
        (fullReads 2 s.reads)[n.toNat / 2]? = some data) ∧
      (∀ d ∈ multicast .little 1 s.log, ∀ x, Receiver.decode .little d = some x → x.num = 0 →
        d = sendMcast .little 1 0 [1, 2]) ∧
      .resent 0 [1, 2] ∈ s.log ∧ 2 ∣ (0 : UInt64).toNat ∧ (0 : UInt64).toNat < s.byteNum.toNat := by
  have he : ((exec (step ⟨[], 0, 2, 4, []⟩) (State.init ⟨[], 0, 2, 4, []⟩ [1, 2, 3, 4])
      twoBlocks).map State.log) = some [.sent 0 [1, 2], .sent 2 [3, 4], .inserted 0, .inserted 1,
        .copied [0, 1], .locked, .resent 0 [1, 2], .unlocked] := by decide
  obtain ⟨s, hr, hs⟩ := Option.map_eq_some_iff.1 he
  obtain ⟨hcarried, hsame, hresent⟩ := datagrams_ok ⟨[], 0, 2, 4, []⟩ [1, 2, 3, 4] .little 1 (by decide)
    (exec_run hr) (by rw [hs]; decide)
  have hsent : ∀ num data, .sent num data ∈ s.log →
      sendMcast .little 1 num data ∈ multicast .little 1 s.log := fun num data hm =>
    List.mem_filterMap.2 ⟨_, hm, rfl⟩
  refine ⟨s, exec_run hr, hcarried _ (hsent 2 [3, 4] (by simp [hs])), fun d hd x hx hnum => ?_,
    by simp [hs], hresent 0 [1, 2] (by simp [hs])⟩
  exact hsame d hd _ (hsent 0 [1, 2] (by simp [hs])) x _ hx (Receiver.decode_sendMcast ..) hnum

end SikMimuw.Transmitter
