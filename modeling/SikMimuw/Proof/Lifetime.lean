import SikMimuw.Proof.Threads

/-!
# The lifetime of the receiver's threads

`data_loop` keeps the last printing thread it created until it has joined it, and creates no
other before that. A requesting thread it never joins: nothing sets `finished_requesting`, and
line 352 joins `printing_thread` in its place.

* `Printing`: every printing thread but the current one has ended, and `finished_printing` is
  set by the current one at its end.
* `Accounted`: every printing thread but the current one was joined once. It needs `NoneLeft`,
  that line 351 finds `requesting` false.
* `lifetime_ok`: threads and joins of such runs, and the breach where the condition fails.
-/

namespace SikMimuw.Receiver

open Lts

variable {W : Wild} {s s' : State} {i j : ℕ}

/-- `data_loop` has joined the printing thread at its end. -/
def DataPc.joined : DataPc → Bool
  | .joinRequesting | .idle => true
  | _ => false

/-- The printing thread that is not joined yet. -/
def State.current (s : State) : Option ℕ :=
  if s.printing = true ∧ s.data.joined = false then s.printingThread else none

/-- Printing thread `i` has no step left but its last unlock. -/
def State.Last (s : State) (i : ℕ) : Prop :=
  s.printers[i]? = some .unlockEarly ∨ s.printers[i]? = some .done

/-- **The printing threads**: all but the current one have ended. -/
structure Printing (s : State) : Prop where
  ended : ∀ i, i < s.printers.length → s.current ≠ some i → s.printers[i]? = some .done
  flag : s.finishedPrinting = true → ∃ i, s.current = some i ∧ s.Last i
  thread : s.printing = true → ∃ i, s.printingThread = some i ∧ i < s.printers.length
  noFlag : s.finishedRequesting = false

theorem init_printing (maxData : UInt64) : Printing (State.init maxData) where
  ended := by simp [State.init]
  flag := by simp [State.init]
  thread := by simp [State.init]
  noFlag := rfl

/-- A thread that has not ended is the current one. -/
theorem Printing.current_of_alive (h : Printing s) {pc : PrintPc} (hpc : s.printers[i]? = some pc)
    (hne : pc ≠ .done) : s.current = some i := by
  by_contra hc
  have hi : i < s.printers.length := (List.getElem?_eq_some_iff.1 hpc).1
  rw [h.ended i hi hc, Option.some.injEq] at hpc
  exact hne hpc.symm

/-- `finished_printing` is set in the last steps of a thread. -/
theorem PrintStep.flag (h : PrintStep s i s') :
    s'.Last i ∨ s'.finishedPrinting = s.finishedPrinting ∧ ¬ s.Last i := by
  have hlt : ∀ {pc}, s.printers[i]? = some pc → i < s.printers.length :=
    fun hpc => (List.getElem?_eq_some_iff.1 hpc).1
  cases h with
  | finishEarly hpc => exact Or.inl (Or.inl (List.getElem?_set_self (hlt hpc)))
  | unlockEarly hpc | finishEnd hpc => exact Or.inl (Or.inr (List.getElem?_set_self (hlt hpc)))
  | lock hpc | goesOn hpc | quits hpc | pop hpc | reset hpc | unlockPackage hpc | write hpc
  | lockAgain hpc | unlockEnd hpc => exact Or.inr ⟨rfl, by simp [State.Last, hpc]⟩

theorem Printing.print (h : Printing s) (hst : PrintStep s i s') : Printing s' := by
  have hf := hst.frame
  obtain ⟨pc, pc', hpc, hne, hset⟩ := hf.moved
  have hcur : s.current = some i := h.current_of_alive hpc hne
  have hcur' : s'.current = s.current := by
    rw [State.current, State.current, hf.printing, hf.data, hf.printingThread]
  refine ⟨?_, ?_, ?_, by rw [hf.finishedRequesting]; exact h.noFlag⟩
  · intro j hj hc
    rw [hcur', hcur] at hc
    have hji : i ≠ j := fun hij => hc (by rw [hij])
    rw [hset, List.length_set] at hj
    rw [hset, List.getElem?_set_ne hji]
    exact h.ended j hj (by rw [hcur]; exact hc)
  · intro hfl
    refine ⟨i, by rw [hcur', hcur], ?_⟩
    rcases hst.flag with hl | ⟨heq, hl⟩
    · exact hl
    · rw [heq] at hfl
      obtain ⟨k, hk, hlk⟩ := h.flag hfl
      rw [hcur, Option.some.injEq] at hk
      subst hk
      exact absurd hlk hl
  · rw [hf.printing, hf.printingThread, hset, List.length_set]
    exact h.thread

/-- A step that leaves the printing threads and what `data_loop` knows of them. -/
theorem Printing.keep (h : Printing s) (hp : s'.printers = s.printers) (hc : s'.current = s.current)
    (hpr : s'.printing = s.printing) (ht : s'.printingThread = s.printingThread)
    (hf : s'.finishedPrinting = s.finishedPrinting) (hr : s'.finishedRequesting = false) :
    Printing s' where
  ended := by rw [hp, hc]; exact h.ended
  flag := by
    rw [hf, hc]
    unfold State.Last
    rw [hp]
    exact h.flag
  thread := by rw [hpr, ht, hp]; exact h.thread
  noFlag := hr

/-- A step after which all have ended. -/
theorem Printing.leave (h : Printing s) (hp : s'.printers = s.printers)
    (hcur : ∀ i, s.current = some i → s.printers[i]? = some .done)
    (ht : s'.printing = true → s.printing = true ∧ s'.printingThread = s.printingThread)
    (hf : s'.finishedPrinting = false) (hr : s'.finishedRequesting = false) : Printing s' where
  ended := by
    rw [hp]
    intro i hi _
    by_cases hi' : s.current = some i
    · exact hcur i hi'
    · exact h.ended i hi hi'
  flag := fun h' => by rw [hf] at h'; cases h'
  thread := by
    intro hpr
    obtain ⟨hpr', heq⟩ := ht hpr
    rw [heq, hp]
    exact h.thread hpr'
  noFlag := hr

theorem current_eq (hd : s.data.joined = false) :
    s.current = if s.printing = true then s.printingThread else none := by
  simp [State.current, hd]

theorem current_joined (hd : s.data.joined = true) : s.current = none := by
  simp [State.current, hd]

/-- The thread that `pthread_join` waited for has ended. -/
theorem ended_of_join (he : s.printingEnded = true) (hc : s.current = some i) :
    s.printers[i]? = some .done := by
  unfold State.current at hc
  split at hc
  · unfold State.printingEnded at he
    rw [hc] at he
    simpa using he
  · cases hc

/-- No thread is current, so `finished_printing` is not set. -/
theorem Printing.noFinished (h : Printing s) (hc : s.current = none) : s.finishedPrinting = false := by
  by_contra hf
  rw [Bool.not_eq_false] at hf
  obtain ⟨i, hi, -⟩ := h.flag hf
  rw [hc] at hi
  cases hi

/-- A printer that has been created is current. -/
theorem current_new (hd : s.data.joined = false) : State.current { s with
    printers := s.printers ++ [.lock], printingThread := some s.printers.length,
    printing := true } = some s.printers.length := by
  rw [current_eq (by exact hd)]
  rfl

theorem Printing.create (h : Printing s) (hd : s.data.joined = false) : Printing s.createPrinting := by
  unfold State.createPrinting
  split
  · rename_i hcond
    have hc : s.current = none := by rw [current_eq hd, if_neg (by simp [hcond.2])]
    have hnew := current_new hd
    refine ⟨?_, ?_, ?_, h.noFlag⟩
    · intro i hi hne
      rw [hnew, ne_eq, Option.some.injEq] at hne
      simp only [List.length_append, List.length_cons, List.length_nil] at hi
      have hlt : i < s.printers.length := by omega
      dsimp only
      rw [List.getElem?_append_left hlt]
      exact h.ended i hlt (by rw [hc]; simp)
    · intro hf
      rw [h.noFinished hc] at hf
      cases hf
    · intro _
      exact ⟨_, rfl, by simp⟩
  · exact h

theorem Printing.createRequesting (h : Printing s) : Printing s.createRequesting := by
  unfold State.createRequesting
  split
  · exact h.keep rfl rfl rfl rfl rfl h.noFlag
  · exact h

/-- **`data_loop`** keeps one printing thread at a time. -/
theorem Printing.dataLoop {leave : Bool} {recv : Option Datagram} (h : Printing s)
    (hst : DataStep W s leave recv s') : Printing s' := by
  cases hst with
  | leaves hpc | stays hpc | nothing hpc | opens hpc | older hpc | newer hpc | stores hpc
  | lockAdd hpc | unlockAdd hpc | lockCheck hpc | unlockCheck hpc | keepPrinting hpc
  | keepRequesting hpc | again hpc | ends hpc | lockReset hpc | reset hpc | unlockReset hpc
  | setStop hpc =>
    exact h.keep rfl (by simp [State.current, hpc, DataPc.joined]) rfl rfl rfl h.noFlag
  | add hpc | adding hpc =>
    refine h.keep rfl ?_ rfl rfl rfl h.noFlag
    unfold State.current State.inCall
    dsimp only
    split <;> simp [hpc, DataPc.joined]
  | check hpc =>
    have hd : s.data.joined = false := by rw [hpc]; rfl
    refine (h.create hd).createRequesting.keep rfl ?_ rfl rfl rfl (h.create hd).createRequesting.noFlag
    rw [current_eq (by rfl), current_eq (by simpa using hd)]
  | closePrinting hpc hf he =>
    exact h.leave rfl (fun i => ended_of_join he) (fun hp => (by cases hp)) rfl h.noFlag
  | closeRequesting hpc hf =>
    rw [h.noFlag] at hf
    cases hf
  | noPrinting hpc hp =>
    exact h.keep rfl (by simp [State.current, hp]) rfl rfl rfl h.noFlag
  | joinPrinting hpc hp he =>
    exact h.leave rfl (fun i => ended_of_join he) (fun hp => ⟨hp, rfl⟩) rfl h.noFlag
  | noRequesting hpc =>
    exact h.keep rfl (by simp [State.current, hpc, DataPc.joined]) rfl rfl rfl h.noFlag
  | joinRequesting hpc =>
    exact h.keep rfl (by simp [State.current, State.joinPrinting, hpc, DataPc.joined]) rfl rfl rfl rfl

/-- **One step** keeps one printing thread at a time. -/
theorem step_printing {e : Event} (h : Printing s) (hst : step W s e = some s') : Printing s' := by
  cases step_cases hst with
  | signal => exact h.keep rfl rfl rfl rfl rfl h.noFlag
  | run hpc =>
    have hc : s.current = none := current_joined (by rw [hpc]; rfl)
    exact h.leave rfl (fun i hi => by rw [hc] at hi; cases hi) (fun hp => (by cases hp))
      (h.noFinished hc) h.noFlag
  | data hd => exact h.dataLoop hd
  | printer hp => exact h.print hp
  | requester hr =>
    have hf := hr.frame
    refine h.keep hf.printers ?_ hf.printing hf.printingThread hf.finishedPrinting ?_
    · rw [State.current, State.current, hf.printing, hf.data, hf.printingThread]
    · rw [hf.finishedRequesting]
      exact h.noFlag

/-! ### Joins -/

def RequestPc.ended : RequestPc → Bool
  | .done => true
  | _ => false

/-- **Lifetimes**: when `data_loop` has returned, every thread created has ended and was joined
once, and at no time do two requesting threads run. -/
structure LifetimeOk (s : State) : Prop where
  printers : s.data = .idle → ∀ i < s.printers.length,
    s.printers[i]? = some .done ∧ s.joined.count (.printer i) = 1
  requesters : s.data = .idle → ∀ i < s.requesters.length,
    s.requesters[i]? = some .done ∧ s.joined.count (.requester i) = 1
  alone : ∀ (i j : ℕ) (pc pc' : RequestPc), s.requesters[i]? = some pc → s.requesters[j]? = some pc' →
    pc.ended = false → pc'.ended = false → i = j

/-- `data_loop` is at line 351. -/
def DataPc.atJoin : DataPc → Bool
  | .joinRequesting => true
  | _ => false

/-- Line 351 finds `requesting` false: no requesting thread was created. -/
def NoneLeft (s : State) : Event → Prop
  | .data .. => s.data.atJoin → s.requesting = false
  | _ => True

instance instDecidableNoneLeft (s : State) (e : Event) : Decidable (NoneLeft s e) :=
  match e with
  | .data .. => inferInstanceAs (Decidable (s.data.atJoin → s.requesting = false))
  | .signal | .run | .printer _ | .requester _ => .isTrue trivial

/-- **The joins**: of every printing thread but the current one, and of no requesting thread. -/
structure Accounted (s : State) : Prop where
  printing : Printing s
  old : ∀ i < s.printers.length, s.current ≠ some i → s.joined.count (.printer i) = 1
  last : ∀ i, s.current = some i → s.joined.count (.printer i) = 0
  fresh : ∀ i, s.printers.length ≤ i → s.joined.count (.printer i) = 0
  never : ∀ i, s.joined.count (.requester i) = 0
  one : s.requesters.length = s.requesting.toNat
  idle : s.data = .idle → s.requesting = false

theorem init_accounted (maxData : UInt64) : Accounted (State.init maxData) where
  printing := init_printing maxData
  old := by simp [State.init]
  last := by simp [State.init]
  fresh := by simp [State.init]
  never := by simp [State.init]
  one := rfl
  idle := fun _ => rfl

/-- A step that joins nothing and creates nothing. -/
theorem Accounted.keep (h : Accounted s) (hp : Printing s')
    (hl : s'.printers.length = s.printers.length) (hc : s'.current = s.current)
    (hj : s'.joined = s.joined) (ho : s'.requesters.length = s'.requesting.toNat)
    (hi : s'.data = .idle → s'.requesting = false) : Accounted s' where
  printing := hp
  old := by rw [hl, hc, hj]; exact h.old
  last := by rw [hc, hj]; exact h.last
  fresh := by rw [hl, hj]; exact h.fresh
  never := by rw [hj]; exact h.never
  one := ho
  idle := hi

/-- The current thread is joined. -/
theorem Accounted.join (h : Accounted s) (hp : Printing s') (hl : s'.printers = s.printers)
    (hcur : s.current = some i) (hc : s'.current = none) (hj : s'.joined = s.joined ++ [.printer i])
    (ho : s'.requesters.length = s'.requesting.toNat) (hi : s'.data ≠ .idle) : Accounted s' where
  printing := hp
  old := by
    intro j hjl _
    rw [hl] at hjl
    rw [hj, List.count_append]
    by_cases hij : i = j
    · subst hij
      rw [h.last i hcur, List.count_singleton_self]
    · rw [h.old j hjl (by rw [hcur]; simpa using hij),
        List.count_eq_zero_of_not_mem (by simpa using Ne.symm hij)]
  last := by simp [hc]
  fresh := by
    intro j hjl
    rw [hl] at hjl
    have hlt : i < s.printers.length := by
      unfold State.current at hcur
      split at hcur
      · obtain ⟨k, hk, hlt⟩ := h.printing.thread (by simp [*])
        rw [hcur, Option.some.injEq] at hk
        omega
      · cases hcur
    rw [hj, List.count_append, h.fresh j hjl,
      List.count_eq_zero_of_not_mem (by simp only [List.mem_singleton, Tid.printer.injEq]; omega)]
  never := by
    intro j
    rw [hj, List.count_append, h.never, List.count_eq_zero_of_not_mem (by simp)]
  one := ho
  idle := fun h' => absurd h' hi

theorem Accounted.createPrinting (h : Accounted s) (hd : s.data.joined = false) :
    Accounted s.createPrinting := by
  have hp := h.printing.create hd
  unfold State.createPrinting at hp ⊢
  split
  · rename_i hcond
    rw [if_pos hcond] at hp
    have hc : s.current = none := by rw [current_eq hd, if_neg (by simp [hcond.2])]
    have hnew := current_new hd
    refine ⟨hp, ?_, ?_, ?_, h.never, h.one, h.idle⟩
    · intro i hi hne
      rw [hnew, ne_eq, Option.some.injEq] at hne
      simp only [List.length_append, List.length_cons, List.length_nil] at hi
      exact h.old i (by omega) (by rw [hc]; simp)
    · intro i hi
      rw [hnew, Option.some.injEq] at hi
      exact h.fresh i (by omega)
    · intro i hi
      simp only [List.length_append, List.length_cons, List.length_nil] at hi
      exact h.fresh i (by omega)
  · exact h

theorem Accounted.createRequesting (h : Accounted s) (hd : s.data ≠ .idle) :
    Accounted s.createRequesting := by
  have hp := h.printing.createRequesting
  unfold State.createRequesting at hp ⊢
  split
  · rename_i hcond
    rw [if_pos hcond] at hp
    refine h.keep hp rfl rfl rfl ?_ fun h' => absurd h' hd
    have ho := h.one
    rw [hcond.2] at ho
    simpa using ho
  · exact h

/-- **`data_loop`** joins each printing thread once. -/
theorem Accounted.dataLoop {leave : Bool} {recv : Option Datagram} (h : Accounted s)
    (hn : NoneLeft s (.data leave recv)) (hst : DataStep W s leave recv s') : Accounted s' := by
  have hp := h.printing.dataLoop hst
  cases hst with
  | leaves hpc | stays hpc | nothing hpc | opens hpc | older hpc | newer hpc | stores hpc
  | lockAdd hpc | unlockAdd hpc | lockCheck hpc | unlockCheck hpc | keepPrinting hpc
  | keepRequesting hpc | again hpc | ends hpc | lockReset hpc | reset hpc | unlockReset hpc
  | setStop hpc =>
    exact h.keep hp rfl (by simp [State.current, hpc, DataPc.joined]) rfl h.one (by simp)
  | add hpc | adding hpc =>
    refine h.keep hp rfl ?_ rfl h.one ?_
    · unfold State.current State.inCall
      dsimp only
      split <;> simp [hpc, DataPc.joined]
    · unfold State.inCall
      dsimp only
      split <;> simp
  | check hpc =>
    have hd : s.data.joined = false := by rw [hpc]; rfl
    have hc := (h.createPrinting hd).createRequesting (by simp [hpc])
    refine hc.keep hp rfl ?_ rfl hc.one (by simp)
    rw [current_eq (by rfl), current_eq (by simpa using hd)]
  | closePrinting hpc hf he =>
    obtain ⟨i, hi, -⟩ := h.printing.flag hf
    refine h.join hp rfl hi (by simp [State.current]) ?_ h.one (by simp)
    unfold State.current at hi
    split at hi
    · simp [State.joinPrinting, hi]
    · cases hi
  | closeRequesting hpc hf =>
    rw [h.printing.noFlag] at hf
    cases hf
  | noPrinting hpc hpr =>
    exact h.keep hp rfl (by simp [State.current, hpr]) rfl h.one (by simp)
  | joinPrinting hpc hpr he =>
    obtain ⟨i, hi, -⟩ := h.printing.thread hpr
    have hcur : s.current = some i := by
      rw [current_eq (by rw [hpc]; rfl), if_pos hpr, hi]
    exact h.join hp rfl hcur (by simp [State.current, DataPc.joined])
      (by simp [State.joinPrinting, hi]) h.one (by simp)
  | noRequesting hpc hr =>
    exact h.keep hp rfl (by simp [State.current, hpc, DataPc.joined]) rfl h.one fun _ => hr
  | joinRequesting hpc hr =>
    rw [hn (by rw [hpc]; rfl)] at hr
    cases hr

/-- **One step** of a run in which line 351 finds `requesting` false. -/
theorem step_accounted {e : Event} (h : Accounted s)
    (hst : Guarded (Fires (step W)) NoneLeft s e s') : Accounted s' := by
  obtain ⟨hst, hn⟩ := hst
  have hp := step_printing h.printing hst
  cases step_cases hst with
  | signal => exact h.keep hp rfl rfl rfl h.one h.idle
  | run hpc =>
    have hr := h.idle hpc
    refine h.keep hp rfl ?_ rfl ?_ (by simp)
    · simp [State.current, hpc, DataPc.joined]
    · have ho := h.one
      rw [hr] at ho
      exact ho
  | data hd => exact h.dataLoop hn hd
  | printer hpr =>
    have hf := hpr.frame
    obtain ⟨pc, pc', -, -, hset⟩ := hf.moved
    refine h.keep hp (by rw [hset, List.length_set]) ?_ hf.joined ?_ ?_
    · rw [State.current, State.current, hf.printing, hf.data, hf.printingThread]
    · rw [hf.requesters, hf.requesting]
      exact h.one
    · rw [hf.data, hf.requesting]
      exact h.idle
  | requester hr =>
    have hf := hr.frame
    obtain ⟨pc, pc', -, hset⟩ := hf.moved
    refine h.keep hp (by rw [hf.printers]) ?_ hf.joined ?_ ?_
    · rw [State.current, State.current, hf.printing, hf.data, hf.printingThread]
    · rw [hset, List.length_set, hf.requesting]
      exact h.one
    · rw [hf.data, hf.requesting]
      exact h.idle

theorem Accounted.lifetimeOk (h : Accounted s) : LifetimeOk s where
  printers := by
    intro hd i hi
    have hc : s.current = none := current_joined (by rw [hd]; rfl)
    exact ⟨h.printing.ended i hi (by simp [hc]), h.old i hi (by simp [hc])⟩
  requesters := by
    intro hd i hi
    rw [h.one, h.idle hd] at hi
    exact absurd hi (Nat.not_lt_zero i)
  alone := by
    intro i j pc pc' hi hj _ _
    have hi := (List.getElem?_eq_some_iff.1 hi).1
    have hj := (List.getElem?_eq_some_iff.1 hj).1
    rw [h.one] at hi hj
    have hle := Bool.toNat_le s.requesting
    omega

/-- **Lifetimes over a run.** In every run in which line 351 always finds `requesting` false, the
threads end and are joined as they should. From each of its states, the return of `data_loop`
keeps that exactly if line 351 finds `requesting` false again. -/
theorem lifetime_ok {W : Wild} {maxData : UInt64} {es : List Event} {s : State}
    (h : Run (Guarded (Fires (step W)) NoneLeft) (State.init maxData) es s) :
    LifetimeOk s ∧ ∀ leave recv s', s.data = .joinRequesting →
      step W s (.data leave recv) = some s' → (LifetimeOk s' ↔ s.requesting = false) := by
  have ha : Accounted s := h.inv (init_accounted maxData) fun _ _ _ hI hst => step_accounted hI hst
  refine ⟨ha.lifetimeOk, fun leave recv s' hpc hst => ?_⟩
  constructor
  · intro hok
    by_contra hr
    rw [Bool.not_eq_false] at hr
    -- the requesting thread is there, and line 352 joins another one
    have ho : s.requesters.length = 1 := by rw [ha.one, hr]; rfl
    cases step_cases hst with
    | data hd =>
      cases hd with
      | joinRequesting =>
        have hj := (hok.requesters rfl 0 (by show 0 < s.requesters.length; omega)).2
        unfold State.joinPrinting at hj
        dsimp only at hj
        rw [List.count_append, ha.never, List.count_eq_zero_of_not_mem (by simp)] at hj
        omega
      | noRequesting _ hr' =>
        rw [hr] at hr'
        cases hr'
      | _ => simp_all
  · intro hr
    exact (step_accounted ha ⟨hst, fun _ => hr⟩).lifetimeOk

/-- The last iteration of `data_loop`, and its end. -/
def leaves : List Event := .data true none :: List.replicate 6 (.data false none)

/-- No packet comes; the printing thread of the first iteration ends at once and is joined. -/
theorem lifetime_ok_no_packet : ∃ s, s.data = .idle ∧ s.printers = [.done] ∧ LifetimeOk s := by
  have he : exec (guarded (step ⟨fun _ _ => 0, fun _ _ => 0⟩) NoneLeft) (State.init 8)
      (.run :: List.replicate 5 (.data false none) ++ List.replicate 4 (.printer 0) ++
        List.replicate 3 (.data false none) ++ leaves) = some _ := rfl
  exact ⟨_, rfl, rfl, (lifetime_ok (exec_guarded he)).1⟩

/-- Packet 1 is missing when `data_loop` returns: the thread that requests it runs on. -/
theorem requesting_thread_left : ¬ ∀ (W : Wild) (maxData : UInt64) (es : List Event) (s : State),
    Run (Fires (step W)) (State.init maxData) es s → LifetimeOk s := by
  intro h
  have he : exec (step ⟨fun _ _ => 0, fun _ _ => 0⟩) (State.init 8) (missesOne ++ leaves) = some _ := rfl
  have hd := ((h _ _ _ _ (exec_run he)).requesters rfl 0 (by decide)).2
  exact absurd hd (by decide)

end SikMimuw.Receiver
