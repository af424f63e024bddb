import Mathlib.Algebra.Order.BigOperators.Group.List
import Mathlib.Order.Lattice.Nat
import SikMimuw.Lib.Descent
import SikMimuw.Proof.Sections

/-!
# The receiver never hangs, and its threads end

As long as no copy of an empty `set` breaks `mutex_buffor`, the thread that holds it can go on, and
a `pthread_join` waits for a thread that can (`Lively.enabled`). Once `finish` is set, no thread
starts another turn of its loop. The calls of `add_to_buffor` apart, which need not return, every
step lowers `State.remaining`, whatever the interleaving: threads that are still to be created, and
keys that the calls may still add to what a requesting thread reads, are paid for in advance.

`at_rest` puts this together with the state in which the threads leave the receiver.
-/

namespace SikMimuw.Receiver

open Lts Mutex

variable {W : Wild} {K n : ℕ} {s s' : State} {i : ℕ} {num : UInt64} {data : List UInt8}
  {b : Buffer} {c : Call}

/-- `data_loop` has returned, and so have the threads it created. -/
structure State.Done (s : State) : Prop where
  data : s.data = .idle
  printers : ∀ pc ∈ s.printers, pc = .done
  requesters : ∀ pc ∈ s.requesters, pc = .done

/-- A step of a thread: neither a signal nor `main` that starts `data_loop` anew. -/
def Event.ofThread : Event → Bool
  | .signal | .run => false
  | _ => true

/-! ### Deadlocks -/

/-- What keeps the threads from waiting for each other. -/
structure Lively (s : State) : Prop where
  excluded : Excluded s
  printing : Printing s
  created : ∀ i, s.printingThread = some i → i < s.printers.length
  stocked : ∀ i : ℕ, s.printers[i]? = some .pop → s.buf.packages.values ≠ []
  emptied : s.data.AfterReset → s.buf.Empty

theorem init_lively (maxData : UInt64) : Lively (State.init maxData) where
  excluded := init_excluded maxData
  printing := init_printing maxData
  created := by simp [State.init]
  stocked := by simp [State.init]
  emptied := fun _ => ⟨rfl, rfl⟩

/-- `data_loop` changes the buffer in its sections only, and empties it at line 344. -/
theorem DataStep.buffer {leave : Bool} {recv : Option Datagram} (h : DataStep W s leave recv s')
    (he : s.data.AfterReset → s.buf.Empty) :
    (s.data.inside = false → s'.buf = s.buf) ∧ (s'.data.AfterReset → s'.buf.Empty) := by
  cases h with
  | leaves hpc | stays hpc | nothing hpc | opens hpc | older hpc | newer hpc | stores hpc
  | lockAdd hpc | unlockAdd hpc | lockCheck hpc | unlockCheck hpc | keepPrinting hpc
  | closePrinting hpc | keepRequesting hpc | closeRequesting hpc | again hpc | ends hpc
  | lockReset hpc =>
    exact ⟨fun _ => rfl, by simp [DataPc.AfterReset, DataPc.afterLoop]⟩
  | unlockReset hpc | setStop hpc | noPrinting hpc | joinPrinting hpc | noRequesting hpc
  | joinRequesting hpc =>
    exact ⟨fun _ => rfl, fun _ => he (by simp [hpc, DataPc.AfterReset, DataPc.afterLoop])⟩
  | add hpc | adding hpc =>
    refine ⟨by simp [hpc, DataPc.inside], ?_⟩
    unfold State.inCall
    dsimp only
    split <;> simp [DataPc.AfterReset, DataPc.afterLoop]
  | check hpc =>
    exact ⟨by simp [hpc, DataPc.inside], by simp [DataPc.AfterReset, DataPc.afterLoop]⟩
  | reset hpc => exact ⟨by simp [hpc, DataPc.inside], fun _ => ⟨rfl, rfl⟩⟩

/-- `printing_thread` is a thread that was created. -/
theorem DataStep.created {leave : Bool} {recv : Option Datagram} (h : DataStep W s leave recv s')
    (hc : ∀ i, s.printingThread = some i → i < s.printers.length) :
    ∀ i, s'.printingThread = some i → i < s'.printers.length := by
  cases h with
  | check =>
    unfold State.createRequesting State.createPrinting
    intro i hi
    split_ifs at hi ⊢ with h1 h2 h2
    · simp_all
    · simp_all
    · exact hc i hi
    · exact hc i hi
  | leaves | stays | nothing | opens | older | newer | stores | lockAdd | unlockAdd | lockCheck
  | unlockCheck | keepPrinting | closePrinting | keepRequesting | closeRequesting | again | ends
  | lockReset | reset | unlockReset | setStop | noPrinting | joinPrinting | noRequesting
  | joinRequesting | add | adding => exact hc

/-- **One step** keeps the threads lively. -/
theorem step_lively {e : Event} (h : Lively s) (hst : step W s e = some s')
    (hc : CopiesKeys s e) : Lively s' := by
  have hex := step_excl h.excluded hst hc
  have hpr := step_printing h.printing hst
  cases step_cases hst with
  | signal => exact ⟨hex, hpr, h.created, h.stocked, h.emptied⟩
  | run hpc =>
    exact ⟨hex, hpr, h.created, h.stocked, by simp [DataPc.AfterReset, DataPc.afterLoop]⟩
  | data hd =>
    obtain ⟨hbuf, hem⟩ := hd.buffer h.emptied
    refine ⟨hex, hpr, hd.created h.created, ?_, hem⟩
    intro i hi
    obtain ⟨l, hl, hlock⟩ := hd.moves.2.printers
    -- a thread that is about to pop was there before, and keeps `data_loop` out
    have hi' : s.printers[i]? = some .pop := by
      rw [hl] at hi
      rcases lt_or_ge i s.printers.length with hlt | hge
      · rwa [List.getElem?_append_left hlt] at hi
      · rw [List.getElem?_append_right hge] at hi
        cases hlock _ (List.mem_of_getElem? hi)
    rw [hbuf (h.excluded.alone hi' rfl)]
    exact h.stocked i hi'
  | @printer i _ hp =>
    have hf := hp.frame
    refine ⟨hex, hpr, ?_, ?_, by rw [hf.data]; exact fun hs => (h.emptied hs).print hf.buf⟩
    · obtain ⟨pc, pc', -, -, hset⟩ := hf.moved
      rw [hf.printingThread, hset, List.length_set]
      exact h.created
    · intro j hj
      obtain ⟨pc, pc', hpc, hne, hset⟩ := hf.moved
      by_cases hji : j = i
      · subst hji
        have hlt : j < s.printers.length := (List.getElem?_eq_some_iff.1 hpc).1
        cases hp with
        | goesOn _ hnil => exact hnil
        | pop =>
          simp only [State.setPrinter, List.getElem?_set_self hlt, Option.some.injEq] at hj
          split at hj <;> cases hj
        | lock | quits | reset | finishEarly | unlockEarly | unlockPackage | write | lockAgain
        | unlockEnd | finishEnd =>
          simp [State.setPrinter, List.getElem?_set_self hlt] at hj
      · rw [hset, List.getElem?_set_ne (Ne.symm hji)] at hj
        cases h.printing.alone hpc hne hj hji
  | requester hr =>
    have hf := hr.frame
    refine ⟨hex, hpr, ?_, ?_, ?_⟩
    · rw [hf.printingThread, hf.printers]
      exact h.created
    · rw [hf.printers, hf.buf]
      exact h.stocked
    · rw [hf.data, hf.buf]
      exact h.emptied

/-- `data_loop` stops only where it waits for the mutex, or for its printing thread. -/
theorem data_enabled (W : Wild) (hpc : s.data ≠ .idle) (hno : s.finishedRequesting = false)
    (hfree : s.mutexBuffor = none ∧ s.printingEnded = true ∨ s.data.inside = true) :
    ∃ s', stepData W s false none = some s' := by
  unfold stepData
  cases hd : s.data <;> rw [hd] at hfree <;> dsimp only
  case idle => exact absurd hd hpc
  case lockAdd | lockCheck | lockReset =>
    have hm := (hfree.resolve_right (by simp [DataPc.inside])).1
    exact ⟨_, if_pos hm⟩
  case closePrinting | joinPrinting | joinRequesting =>
    have he := (hfree.resolve_right (by simp [DataPc.inside])).2
    rw [he]
    split <;> exact ⟨_, rfl⟩
  case closeRequesting =>
    rw [hno]
    exact ⟨_, rfl⟩
  all_goals exact ⟨_, rfl⟩

theorem printer_enabled {pc : PrintPc} (hpc : pc ≠ .done)
    (hstock : pc = .pop → s.buf.packages.values ≠ [])
    (hfree : s.mutexBuffor = none ∨ pc.inside = true) : ∃ s', stepPrinter s i pc = some s' := by
  unfold stepPrinter
  cases pc <;> dsimp only
  case done => exact absurd rfl hpc
  case lock | lockAgain =>
    have hm := hfree.resolve_right (by simp [PrintPc.inside])
    exact ⟨_, if_pos hm⟩
  case test => split <;> exact ⟨_, rfl⟩
  case pop =>
    obtain ⟨p, ps, hv⟩ := List.exists_cons_of_ne_nil (hstock rfl)
    unfold Buffer.pop
    rw [hv]
    exact ⟨_, rfl⟩
  all_goals exact ⟨_, rfl⟩

theorem requester_enabled (W : Wild) {pc : RequestPc} (hpc : pc ≠ .done)
    (hfree : s.mutexBuffor = none ∨ pc.inside = true) : ∃ s', stepRequester W s i pc = some s' := by
  unfold stepRequester
  cases pc <;> dsimp only
  case done => exact absurd rfl hpc
  case test => split <;> exact ⟨_, rfl⟩
  case lock =>
    have hm := hfree.resolve_right (by simp [RequestPc.inside])
    exact ⟨_, if_pos hm⟩
  case reading todo nums => cases todo <;> exact ⟨_, rfl⟩
  all_goals exact ⟨_, rfl⟩

/-- A printing thread that is free to go on. -/
theorem Lively.printer (h : Lively s) (W : Wild) {pc : PrintPc} (hpc : s.printers[i]? = some pc)
    (hne : pc ≠ .done) (hfree : s.mutexBuffor = none ∨ pc.inside = true) :
    ∃ ev s', Event.ofThread ev ∧ step W s ev = some s' := by
  obtain ⟨s', hs'⟩ := printer_enabled (i := i) hne (fun hp => h.stocked i (by rw [hpc, hp])) hfree
  exact ⟨.printer i, s', rfl, by rw [step, hpc]; exact hs'⟩

theorem Lively.requester (W : Wild) {pc : RequestPc} (hpc : s.requesters[i]? = some pc)
    (hne : pc ≠ .done) (hfree : s.mutexBuffor = none ∨ pc.inside = true) :
    ∃ ev s', Event.ofThread ev ∧ step W s ev = some s' := by
  obtain ⟨s', hs'⟩ := requester_enabled (i := i) W hne hfree
  exact ⟨.requester i, s', rfl, by rw [step, hpc]; exact hs'⟩

theorem Lively.dataLoop (h : Lively s) (W : Wild) (hpc : s.data ≠ .idle)
    (hfree : s.mutexBuffor = none ∧ s.printingEnded = true ∨ s.data.inside = true) :
    ∃ ev s', Event.ofThread ev ∧ step W s ev = some s' := by
  obtain ⟨s', hs'⟩ := data_enabled W hpc h.printing.noFlag hfree
  exact ⟨.data false none, s', rfl, hs'⟩

/-- **No deadlock**: unless all are done, some thread has a step. -/
theorem Lively.enabled (h : Lively s) (W : Wild) (hd : ¬ s.Done) :
    ∃ ev s', Event.ofThread ev ∧ step W s ev = some s' := by
  cases hm : s.mutexBuffor with
  | some t =>
    -- the holder of the mutex goes on
    have hin : s.inside t := (h.excluded.excl t).2 hm
    cases t with
    | data =>
      have hpc : s.data ≠ .idle := by
        intro hpc
        simp [State.inside, hpc, DataPc.inside] at hin
      exact h.dataLoop W hpc (Or.inr hin)
    | printer i =>
      obtain ⟨pc, hpc, hin⟩ := hin
      exact h.printer W hpc (fun hp => by rw [hp] at hin; cases hin) (Or.inr hin)
    | requester i =>
      obtain ⟨pc, hpc, hin⟩ := hin
      exact Lively.requester W hpc (fun hp => by rw [hp] at hin; cases hin) (Or.inr hin)
  | none =>
    by_cases hp : ∀ pc ∈ s.printers, pc = .done
    · by_cases hi : s.data = .idle
      · by_cases hr : ∀ pc ∈ s.requesters, pc = .done
        · exact absurd ⟨hi, hp, hr⟩ hd
        · push Not at hr
          obtain ⟨pc, hpc, hne⟩ := hr
          obtain ⟨i, hpc⟩ := List.mem_iff_getElem?.1 hpc
          exact Lively.requester W hpc hne (Or.inl hm)
      · -- the thread that a join waits for has ended
        have he : s.printingEnded = true := by
          unfold State.printingEnded
          split
          · rfl
          · rename_i i hi
            have hlt := h.created i hi
            rw [List.getElem?_eq_getElem hlt, hp _ (List.getElem_mem hlt)]
            rfl
        exact h.dataLoop W hi (Or.inl ⟨hm, he⟩)
    · push Not at hp
      obtain ⟨pc, hpc, hne⟩ := hp
      obtain ⟨i, hpc⟩ := List.mem_iff_getElem?.1 hpc
      exact h.printer W hpc hne (Or.inl hm)

/-! ### The passes of a call -/

/-- The passes after which the call for `num` returns, from a buffer in its loop. -/
noncomputable def passes (W : Wild) (num : UInt64) (data : List UInt8) (b : Buffer) : ℕ :=
  sInf {n | ((Call.pass W num data)^[n] ⟨b, [], false⟩).done = true}

theorem iterate_pass_evicted (W : Wild) (num : UInt64) (data : List UInt8) :
    ∀ (n : ℕ) (b : Buffer) (es : List Eviction), ((Call.pass W num data)^[n] ⟨b, es, false⟩).done =
      ((Call.pass W num data)^[n] ⟨b, [], false⟩).done := by
  intro n
  induction n with
  | zero =>
    intro b es
    rfl
  | succ n ih =>
    intro b es
    rw [Function.iterate_succ_apply, Function.iterate_succ_apply]
    obtain ⟨hb, hd⟩ := pass_evicted W num data b es
    generalize Call.pass W num data ⟨b, es, false⟩ = c at hb hd
    generalize Call.pass W num data ⟨b, [], false⟩ = c' at hb hd
    obtain ⟨b₁, es₁, d₁⟩ := c
    obtain ⟨b₂, es₂, d₂⟩ := c'
    dsimp only at hb hd
    subst hb hd
    cases d₁ with
    | true => rw [iterate_pass_done W num data rfl, iterate_pass_done W num data rfl]
    | false => rw [ih b₁ es₁, ih b₁ es₂]

/-- The call is in its loop, and returns after `K` more passes at the most. -/
theorem passes_le (h : ((Call.pass W num data)^[K] ⟨b, [], false⟩).done = true) :
    passes W num data b ≤ K := Nat.sInf_le h

/-- **A pass** of such a call. -/
theorem passes_pass (h : ((Call.pass W num data)^[K] ⟨b, [], false⟩).done = true) :
    0 < passes W num data b ∧ ((Call.pass W num data ⟨b, [], false⟩).done = false →
      passes W num data (Call.pass W num data ⟨b, [], false⟩).buf < passes W num data b) := by
  have hmem : ((Call.pass W num data)^[passes W num data b] ⟨b, [], false⟩).done = true :=
    Nat.sInf_mem (s := {n | ((Call.pass W num data)^[n] ⟨b, [], false⟩).done = true}) ⟨K, h⟩
  cases hn : passes W num data b with
  | zero =>
    rw [hn] at hmem
    cases hmem
  | succ n =>
    refine ⟨Nat.succ_pos n, fun hd => ?_⟩
    rw [hn, Function.iterate_succ_apply] at hmem
    generalize Call.pass W num data ⟨b, [], false⟩ = c at hmem hd
    obtain ⟨b', es, d⟩ := c
    dsimp only at hd
    subst hd
    rw [iterate_pass_evicted] at hmem
    exact Nat.lt_succ_of_le (passes_le hmem)

/-- A pass adds a key to `set` at most. -/
theorem entries_pass (hd : c.done = false) :
    (c.pass W num data).buf.set.entries.length ≤ c.buf.set.entries.length + 1 := by
  have hc := pass_case W num data hd
  generalize c.pass W num data = c' at hc
  cases hc with
  | stop | append => exact Nat.le_succ _
  | dummy => exact OrdMap.length_insert_le
  | evict _ _ _ _ _ he =>
    subst he
    exact (List.length_filter_le _ _).trans OrdMap.length_insert_le

/-- Before its loop a call adds none. -/
theorem entries_enter (b : Buffer) (num : UInt64) (data : List UInt8) :
    (b.enter num data).buf.set.entries.length ≤ b.set.entries.length := by
  have hc := enter_case b num data
  generalize b.enter num data = c at hc
  cases hc with
  | fill => exact List.length_filter_le _ _
  | first | loop => exact le_rfl

/-! ### What is left to do -/

/-- The steps that `data_loop` still makes once `finish` is set, the passes of its calls apart. -/
def DataPc.remaining : DataPc → ℕ
  | .head => 22
  | .recv => 21
  | .lockAdd .. => 20
  | .add .. => 19
  | .adding .. | .unlockAdd => 18
  | .lockCheck => 17
  | .check => 16           -- and with two threads that are created
  | .unlockCheck => 10
  | .closePrinting => 9
  | .closeRequesting => 8
  | .test => 7
  | .lockReset => 6
  | .reset => 5
  | .unlockReset => 4
  | .setStop => 3
  | .joinPrinting => 2
  | .joinRequesting => 1
  | .idle => 0

def PrintPc.remaining : PrintPc → ℕ
  | .pop => 7
  | .unlockPackage _ => 6
  | .write _ => 5
  | .lock | .lockAgain => 4
  | .test | .reset => 3
  | .unlockEnd | .finishEarly => 2
  | .finishEnd | .unlockEarly => 1
  | .done => 0

/-- `asked` bounds the keys of `set` that are still to be copied. -/
def RequestPc.remaining (asked : ℕ) : RequestPc → ℕ
  | .lock => asked + 5
  | .copy => asked + 4
  | .unlock copySet => copySet.entries.length + 3
  | .reading todo _ => todo.length + 2
  | .unlockAgain => 2
  | .test => 1
  | .done => 0

/-- The passes of a call that `data_loop` still makes, if a call returns within `K`. -/
noncomputable def State.passes (W : Wild) (K : ℕ) (s : State) : ℕ :=
  match s.data with
  | .head | .recv | .lockAdd .. | .add .. => K
  | .adding num data => Receiver.passes W num data s.buf
  | _ => 0

/-- The keys of `set`, with those that the passes of a call may add. -/
noncomputable def State.asked (W : Wild) (K : ℕ) (s : State) : ℕ :=
  s.buf.set.entries.length + s.passes W K

/-- The printing and the requesting threads. -/
def State.work (asked : ℕ) (s : State) : ℕ :=
  (s.printers.map PrintPc.remaining).sum + (s.requesters.map (RequestPc.remaining asked)).sum

/-- **The measure.** -/
noncomputable def State.remaining (W : Wild) (K : ℕ) (s : State) : ℕ :=
  s.data.remaining + s.passes W K + s.work (s.asked W K)

theorem RequestPc.remaining_mono {m n : ℕ} (h : m ≤ n) (pc : RequestPc) :
    pc.remaining m ≤ pc.remaining n := by
  cases pc <;> simp only [RequestPc.remaining] <;> omega

theorem State.work_mono {m n : ℕ} (h : m ≤ n) (s : State) : s.work m ≤ s.work n := by
  unfold State.work
  have hr := List.sum_le_sum (l := s.requesters) fun pc _ => RequestPc.remaining_mono h pc
  omega

/-- A call that is entered, or that is in its loop, returns within `K` passes. -/
def ReturnsWithin (W : Wild) (K : ℕ) (s : State) : Event → Prop
  | .data .. => ∀ num data,
    (s.data = .add num data → (addToBuffor W s.buf num data K).done = true) ∧
    (s.data = .adding num data → ((Call.pass W num data)^[K] ⟨s.buf, [], false⟩).done = true)
  | _ => True

theorem createPrinting_work (asked : ℕ) (s : State) : s.createPrinting.work asked ≤ s.work asked + 4 := by
  unfold State.createPrinting State.work
  split
  · simp [PrintPc.remaining]
    omega
  · exact Nat.le_add_right _ _

theorem createRequesting_work (asked : ℕ) (s : State) :
    s.createRequesting.work asked ≤ s.work asked + 1 := by
  unfold State.createRequesting State.work
  split
  · simp [RequestPc.remaining]
    omega
  · exact Nat.le_add_right _ _

/-- **A step of `data_loop`.** -/
theorem DataStep.remaining {leave : Bool} {recv : Option Datagram} (h : DataStep W s leave recv s')
    (hfin : s.finish) (hret : ReturnsWithin W K s (.data leave recv)) (asked : ℕ) :
    s'.data.remaining + s'.passes W K + s'.work asked <
      s.data.remaining + s.passes W K + s.work asked ∧ s'.asked W K ≤ s.asked W K := by
  unfold State.asked
  cases h with
  | again _ hf => rw [hf] at hfin; cases hfin
  | @add num data hpc =>
    have hle := entries_enter s.buf num data
    have hc := (hret num data).1 hpc
    unfold State.inCall State.passes addToBuffor at *
    generalize s.buf.enter num data = c at *
    obtain ⟨b, es, d⟩ := c
    rw [hpc]
    cases d with
    | true =>
      simp only [DataPc.remaining, State.work, if_true]
      dsimp only at hle
      omega
    | false =>
      rw [iterate_pass_evicted] at hc
      have hK := passes_le hc
      simp only [DataPc.remaining, State.work, Bool.false_eq_true, if_false]
      dsimp only at hle
      omega
  | @adding num data hpc =>
    have hle : (Call.pass W num data ⟨s.buf, [], false⟩).buf.set.entries.length ≤
        s.buf.set.entries.length + 1 := entries_pass rfl
    obtain ⟨hpos, hlt⟩ := passes_pass ((hret num data).2 hpc)
    unfold State.inCall State.passes
    generalize Call.pass W num data ⟨s.buf, [], false⟩ = c at *
    obtain ⟨b, es, d⟩ := c
    rw [hpc]
    dsimp only at hle
    cases d with
    | true =>
      simp only [DataPc.remaining, State.work, if_true]
      omega
    | false =>
      have hlt := hlt rfl
      simp only [DataPc.remaining, State.work, Bool.false_eq_true, if_false]
      dsimp only at hlt
      omega
  | check hpc =>
    have h1 := createPrinting_work asked s
    have h2 := createRequesting_work asked s.createPrinting
    unfold State.passes
    rw [hpc]
    simp only [DataPc.remaining, createRequesting_buf, createPrinting_buf, le_refl, and_true]
    change _ + s.createPrinting.createRequesting.work asked < _
    omega
  | reset hpc =>
    unfold State.passes
    rw [hpc]
    simp [DataPc.remaining, State.work, Buffer.reset]
  | leaves hpc | stays hpc | nothing hpc | opens hpc | older hpc | newer hpc | stores hpc
  | lockAdd hpc | unlockAdd hpc | lockCheck hpc | unlockCheck hpc | keepPrinting hpc
  | closePrinting hpc | keepRequesting hpc | closeRequesting hpc | ends hpc | lockReset hpc
  | unlockReset hpc | setStop hpc | noPrinting hpc | joinPrinting hpc | noRequesting hpc
  | joinRequesting hpc =>
    unfold State.passes
    rw [hpc]
    simp only [DataPc.remaining, State.work, State.joinPrinting, State.joinRequesting]
    omega

/-- What a printing thread does to the buffer adds no key, and nothing while `data_loop` is in a
section. -/
theorem PrintStep.buffer (h : PrintStep s i s') (hex : Excluded s) :
    s'.buf.set.entries.length ≤ s.buf.set.entries.length ∧
      (s.data.inside = true → s'.buf = s.buf) := by
  cases h with
  | pop hpc hb =>
    obtain ⟨q, hq, heq⟩ := Option.map_eq_some_iff.1 hb
    obtain ⟨rfl, rfl⟩ := Prod.mk.inj heq
    refine ⟨le_rfl, fun hin => ?_⟩
    rw [hex.alone hpc rfl] at hin
    cases hin
  | reset hpc =>
    refine ⟨Nat.zero_le _, fun hin => ?_⟩
    rw [hex.alone hpc rfl] at hin
    cases hin
  | lock | goesOn | quits | finishEarly | unlockEarly | unlockPackage | write | lockAgain
  | unlockEnd | finishEnd => exact ⟨le_rfl, fun _ => rfl⟩

/-- **A step of a printing thread.** -/
theorem PrintStep.remaining (h : PrintStep s i s') (hfin : s.finish) : ∃ pc pc',
    s.printers[i]? = some pc ∧ s'.printers = s.printers.set i pc' ∧
      pc'.remaining < pc.remaining := by
  cases h with
  | goesOn _ _ hf => rw [hf] at hfin; cases hfin
  | pop hpc =>
    refine ⟨_, _, hpc, rfl, ?_⟩
    split <;> simp [PrintPc.remaining]
  | lock hpc | quits hpc | reset hpc | finishEarly hpc | unlockEarly hpc | unlockPackage hpc
  | write hpc | lockAgain hpc | unlockEnd hpc | finishEnd hpc =>
    exact ⟨_, _, hpc, rfl, by simp [PrintPc.remaining]⟩

/-- **A step of a requesting thread.** -/
theorem RequestStep.remaining (h : RequestStep W s i s') (hfin : s.finish)
    (hn : s.buf.set.entries.length ≤ n) : ∃ pc pc', s.requesters[i]? = some pc ∧
      s'.requesters = s.requesters.set i pc' ∧ pc'.remaining n < pc.remaining n := by
  cases h with
  | goesOn _ hf => rw [hf] at hfin; cases hfin
  | copy hpc =>
    refine ⟨_, _, hpc, rfl, ?_⟩
    simp only [RequestPc.remaining]
    omega
  | unlock hpc =>
    refine ⟨_, _, hpc, rfl, ?_⟩
    split <;> simp [RequestPc.remaining]
  | quits hpc | lock hpc | sent hpc | read hpc | unlockAgain hpc =>
    exact ⟨_, _, hpc, rfl, by simp [RequestPc.remaining]⟩

/-! ### The end -/

/-- The steps of the threads, with calls that return within `K` passes. -/
def Threads (W : Wild) (K : ℕ) : State → Event → State → Prop :=
  Guarded (Fires (step W)) fun s ev => Event.ofThread ev ∧ CopiesKeys s ev ∧ ReturnsWithin W K s ev

/-- **One step** of a thread after `finish`. -/
theorem step_remaining {ev : Event} (hex : Excluded s) (hfin : s.finish) (h : Threads W K s ev s') :
    s'.finish ∧ s'.remaining W K < s.remaining W K := by
  obtain ⟨hst, hth, -, hret⟩ := h
  unfold State.remaining
  cases step_cases hst with
  | signal => cases hth
  | run => cases hth
  | data hd =>
    obtain ⟨hlt, hasked⟩ := hd.remaining hfin hret (s.asked W K)
    have hmono := s'.work_mono hasked
    refine ⟨?_, by omega⟩
    cases hd with
    | check =>
      unfold State.createRequesting State.createPrinting
      split_ifs <;> exact hfin
    | leaves | stays | nothing | opens | older | newer | stores | lockAdd | unlockAdd | lockCheck
    | unlockCheck | keepPrinting | closePrinting | keepRequesting | closeRequesting | again | ends
    | lockReset | reset | unlockReset | setStop | noPrinting | joinPrinting | noRequesting
    | joinRequesting | add | adding => exact hfin
  | printer hp =>
    have hf := hp.frame
    obtain ⟨pc, pc', hpc, hset, hlt⟩ := hp.remaining hfin
    obtain ⟨hkeys, hbuf⟩ := hp.buffer hex
    have hpass : s'.passes W K = s.passes W K := by
      unfold State.passes
      rw [hf.data]
      split
      case h_5 hd => rw [hbuf (by rw [hd]; rfl)]
      all_goals rfl
    have hasked : s'.asked W K ≤ s.asked W K := by
      unfold State.asked
      omega
    have hmono := s'.work_mono hasked
    have hsum := sum_map_set PrintPc.remaining hpc (b := pc')
    have hwork : s'.work (s.asked W K) < s.work (s.asked W K) := by
      unfold State.work
      rw [hset, hf.requesters]
      omega
    rw [hf.data, hpass]
    exact ⟨hf.finish.trans hfin, by omega⟩
  | requester hr =>
    have hf := hr.frame
    have hasked : s'.asked W K = s.asked W K := by
      unfold State.asked State.passes
      rw [hf.data, hf.buf]
    have hle : s.buf.set.entries.length ≤ s.asked W K := Nat.le_add_right _ _
    obtain ⟨pc, pc', hpc, hset, hlt⟩ := hr.remaining hfin hle
    have hsum := sum_map_set (RequestPc.remaining (s.asked W K)) hpc (b := pc')
    have hwork : s'.work (s.asked W K) < s.work (s.asked W K) := by
      unfold State.work
      rw [hset, hf.printers]
      omega
    have hpass : s'.passes W K = s.passes W K := by
      unfold State.passes
      rw [hf.data, hf.buf]
    rw [hf.data, hasked, hpass]
    exact ⟨hf.finish.trans hfin, by omega⟩

theorem threads_descend (W : Wild) (K : ℕ) :
    Descends (Threads W K) (fun s => Lively s ∧ s.finish) (State.remaining W K) where
  keeps _ _ _ hs h :=
    ⟨step_lively hs.1 h.1 h.2.2.1, (step_remaining hs.1.excluded hs.2 h).1⟩
  lowers _ _ _ hs h := (step_remaining hs.1.excluded hs.2 h).2

/-- **The receiver comes to rest.** In every state that it can reach without a copy of an empty
`set`:

* unless `data_loop` and its threads are done, one of them has a step, so they never wait for each
  other, neither for `mutex_buffor` nor in `pthread_join`;
* once `finish` is set, at most `s.remaining W K` more steps are made, in whatever order, if the calls
  of `add_to_buffor` return within `K` passes;
* where no step is left all threads are done, also those that nobody joins, the mutex is free, and
  the buffer is empty. -/
theorem at_rest {W : Wild} {maxData : UInt64} (K : ℕ) {es : List Event} {s : State}
    (h : Run (Guarded (Fires (step W)) CopiesKeys) (State.init maxData) es s) :
    (¬ s.Done → ∃ ev s', Event.ofThread ev ∧ step W s ev = some s') ∧
    (s.finish → ∀ es' u, Run (Threads W K) s es' u →
      es'.length + u.remaining W K ≤ s.remaining W K ∧
      ((∀ ev, Event.ofThread ev → step W u ev = none) →
        u.Done ∧ u.mutexBuffor = none ∧ u.buf.Empty)) := by
  have hs : Lively s := h.inv (init_lively maxData) fun _ _ _ hI hst => step_lively hI hst.1 hst.2
  refine ⟨hs.enabled W, fun hfin es' u hr => ?_⟩
  have hd := threads_descend W K
  refine ⟨hd.length_le ⟨hs, hfin⟩ hr, fun hend => ?_⟩
  obtain ⟨hu, -⟩ := hd.inv ⟨hs, hfin⟩ hr
  have hdone : u.Done := by
    by_contra hnd
    obtain ⟨ev, u', hev, hst⟩ := hu.enabled W hnd
    rw [hend ev hev] at hst
    cases hst
  refine ⟨hdone, hu.excluded.excl.free ?_, hu.emptied ⟨6, by rw [hdone.data]; rfl, by omega⟩⟩
  -- a thread that is done is outside
  intro t hin
  cases t with
  | data =>
    rw [State.inside, hdone.data] at hin
    cases hin
  | printer i =>
    obtain ⟨pc, hpc, hin⟩ := hin
    rw [hdone.printers pc (List.mem_of_getElem? hpc)] at hin
    cases hin
  | requester i =>
    obtain ⟨pc, hpc, hin⟩ := hin
    rw [hdone.requesters pc (List.mem_of_getElem? hpc)] at hin
    cases hin

/-- The signal comes while packet 1 is missing, and a requesting thread runs. -/
theorem at_rest_one_missing : ∃ es s u, Run (Guarded (Fires (step ⟨fun _ _ => 0, fun _ _ => 0⟩))
      CopiesKeys) (State.init 8) es s ∧ s.finish ∧ s.requesters = [.test] ∧
    Run (Threads ⟨fun _ _ => 0, fun _ _ => 0⟩ 2) s [.requester 0] u ∧
    1 + u.remaining ⟨fun _ _ => 0, fun _ _ => 0⟩ 2 ≤ s.remaining ⟨fun _ _ => 0, fun _ _ => 0⟩ 2 := by
  have he : ((exec (guarded (step ⟨fun _ _ => 0, fun _ _ => 0⟩) CopiesKeys) (State.init 8)
      (missesOne ++ [.signal])).map fun s => (s.finish, s.requesters.map (RequestPc.remaining 0))) =
        some (true, [1]) := by decide
  obtain ⟨s, hr, hs⟩ := Option.map_eq_some_iff.1 he
  obtain ⟨hfin, hrem⟩ := Prod.mk.inj hs
  have hreq : s.requesters = [.test] := by
    obtain ⟨pc, hpc, h1⟩ := List.map_eq_singleton_iff.1 hrem
    rw [hpc]
    cases pc <;> simp [RequestPc.remaining] at h1 ⊢
  have hst : Run (Threads ⟨fun _ _ => 0, fun _ _ => 0⟩ 2) s [.requester 0] (s.setRequester 0 .done) := by
    apply Run.single
    refine ⟨?_, rfl, ?_, trivial⟩
    · simp [Fires, step, stepRequester, hreq, hfin]
    · simp [CopiesKeys, hreq, RequestPc.copies]
  have hall := (at_rest 2 (exec_guarded hr)).2 hfin _ _ hst
  exact ⟨_, s, _, exec_guarded hr, hfin, hreq, hst, hall.1⟩

end SikMimuw.Receiver
