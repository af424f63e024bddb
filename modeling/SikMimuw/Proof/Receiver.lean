import SikMimuw.Model.Threads

/-!
# The steps of the receiver

What a step of each thread can do, with the guard under which it does it. The invariants of
the modules below go by cases on these, and on no definition of the model.

* `DataStep`, `PrintStep`, `RequestStep`: one case for each outcome of a line.
* `ReceiverStep`: a step of the whole receiver.
* `PrintFrame`, `RequestFrame`: what a thread leaves alone, and all it can do to the buffer.
-/

namespace SikMimuw.Receiver

variable {W : Wild} {s s' : State} {i : ℕ}

theorem lock_some {t : Tid} {u : State} (h : s.lock t u = some s') :
    s.mutexBuffor = none ∧ s' = { u with mutexBuffor := some t } := by
  unfold State.lock at h
  split at h
  · exact ⟨‹_›, by simpa using h.symm⟩
  · simp at h

theorem unlock_some {u : State} (h : u.unlock = some s') : s' = { u with mutexBuffor := none } := by
  simpa [State.unlock] using h.symm

/-- What a step of `data_loop` can do. -/
inductive DataStep (W : Wild) (s : State) (leave : Bool) (recv : Option Datagram) : State → Prop
  | leaves (hpc : s.data = .head) (hl : leave) :
      DataStep W s leave recv { s with data := .lockReset }
  | stays (hpc : s.data = .head) (hl : leave = false) :
      DataStep W s leave recv { s with data := .recv }
  | nothing (hpc : s.data = .recv) (hr : recv = none) :
      DataStep W s leave recv { s with data := .lockCheck }
  | opens {d : Datagram} (hpc : s.data = .recv) (hr : recv = some d) (h0 : s.session = 0) :
      DataStep W s leave recv { s with session := d.session, data := .lockAdd d.num d.data }
  | older {d : Datagram} (hpc : s.data = .recv) (hr : recv = some d) (h0 : s.session ≠ 0)
      (hlt : d.session < s.session) : DataStep W s leave recv { s with data := .test }
  | newer {d : Datagram} (hpc : s.data = .recv) (hr : recv = some d) (h0 : s.session ≠ 0)
      (hlt : s.session < d.session) : DataStep W s leave recv { s with data := .lockReset }
  | stores {d : Datagram} (hpc : s.data = .recv) (hr : recv = some d) (h0 : s.session ≠ 0)
      (heq : d.session = s.session) :
      DataStep W s leave recv { s with data := .lockAdd d.num d.data }
  | lockAdd {num : UInt64} {data : List UInt8} (hpc : s.data = .lockAdd num data)
      (hfree : s.mutexBuffor = none) :
      DataStep W s leave recv { s with data := .add num data, mutexBuffor := some .data }
  | add {num : UInt64} {data : List UInt8} (hpc : s.data = .add num data) :
      DataStep W s leave recv (s.inCall num data (s.buf.enter num data))
  | adding {num : UInt64} {data : List UInt8} (hpc : s.data = .adding num data) :
      DataStep W s leave recv (s.inCall num data (Call.pass W num data ⟨s.buf, [], false⟩))
  | unlockAdd (hpc : s.data = .unlockAdd) :
      DataStep W s leave recv { s with data := .lockCheck, mutexBuffor := none }
  | lockCheck (hpc : s.data = .lockCheck) (hfree : s.mutexBuffor = none) :
      DataStep W s leave recv { s with data := .check, mutexBuffor := some .data }
  | check (hpc : s.data = .check) :
      DataStep W s leave recv { s.createPrinting.createRequesting with data := .unlockCheck }
  | unlockCheck (hpc : s.data = .unlockCheck) :
      DataStep W s leave recv { s with data := .closePrinting, mutexBuffor := none }
  | keepPrinting (hpc : s.data = .closePrinting) (hf : s.finishedPrinting = false) :
      DataStep W s leave recv { s with data := .closeRequesting }
  | closePrinting (hpc : s.data = .closePrinting) (hf : s.finishedPrinting)
      (he : s.printingEnded) : DataStep W s leave recv { s.joinPrinting with
        finishedPrinting := false, printing := false, data := .closeRequesting }
  | keepRequesting (hpc : s.data = .closeRequesting) (hf : s.finishedRequesting = false) :
      DataStep W s leave recv { s with data := .test }
  | closeRequesting (hpc : s.data = .closeRequesting) (hf : s.finishedRequesting)
      (he : s.requestingEnded) : DataStep W s leave recv
        { s.joinRequesting with finishedPrinting := false, requesting := false, data := .test }
  | again (hpc : s.data = .test) (hfin : s.finish = false) :
      DataStep W s leave recv { s with data := .head }
  | ends (hpc : s.data = .test) (hfin : s.finish) :
      DataStep W s leave recv { s with data := .lockReset }
  | lockReset (hpc : s.data = .lockReset) (hfree : s.mutexBuffor = none) :
      DataStep W s leave recv { s with data := .reset, mutexBuffor := some .data }
  | reset (hpc : s.data = .reset) :
      DataStep W s leave recv { s with buf := s.buf.reset, data := .unlockReset }
  | unlockReset (hpc : s.data = .unlockReset) :
      DataStep W s leave recv { s with data := .setStop, mutexBuffor := none }
  | setStop (hpc : s.data = .setStop) :
      DataStep W s leave recv { s with stop := true, data := .joinPrinting }
  | noPrinting (hpc : s.data = .joinPrinting) (hp : s.printing = false) :
      DataStep W s leave recv { s with data := .joinRequesting }
  | joinPrinting (hpc : s.data = .joinPrinting) (hp : s.printing) (he : s.printingEnded) :
      DataStep W s leave recv
        { s.joinPrinting with finishedPrinting := false, data := .joinRequesting }
  | noRequesting (hpc : s.data = .joinRequesting) (hr : s.requesting = false) :
      DataStep W s leave recv { s with data := .idle }
  | joinRequesting (hpc : s.data = .joinRequesting) (hr : s.requesting) (he : s.printingEnded) :
      DataStep W s leave recv { s.joinPrinting with finishedRequesting := false, data := .idle }

/-- What a step of printing thread `i` can do. -/
inductive PrintStep (s : State) (i : ℕ) : State → Prop
  | lock (hpc : s.printers[i]? = some .lock) (hfree : s.mutexBuffor = none) :
      PrintStep s i { s.setPrinter i .test with mutexBuffor := some (.printer i) }
  | goesOn (hpc : s.printers[i]? = some .test) (hne : s.buf.packages.values ≠ [])
      (hfin : s.finish = false) (hstop : s.stop = false) : PrintStep s i (s.setPrinter i .pop)
  | quits (hpc : s.printers[i]? = some .test)
      (h : ¬ (s.buf.packages.values ≠ [] ∧ s.finish = false ∧ s.stop = false)) :
      PrintStep s i (s.setPrinter i .unlockEnd)
  | pop {p : Package} {b : Buffer} (hpc : s.printers[i]? = some .pop) (hb : s.buf.pop = some (p, b)) :
      PrintStep s i
        { s.setPrinter i (if p.data = [] then .reset else .unlockPackage p) with buf := b }
  | reset (hpc : s.printers[i]? = some .reset) :
      PrintStep s i { s.setPrinter i .finishEarly with buf := s.buf.reset }
  | finishEarly (hpc : s.printers[i]? = some .finishEarly) :
      PrintStep s i { s.setPrinter i .unlockEarly with finishedPrinting := true }
  | unlockEarly (hpc : s.printers[i]? = some .unlockEarly) :
      PrintStep s i { s.setPrinter i .done with mutexBuffor := none }
  | unlockPackage {p : Package} (hpc : s.printers[i]? = some (.unlockPackage p)) :
      PrintStep s i { s.setPrinter i (.write p) with mutexBuffor := none }
  | write {p : Package} (hpc : s.printers[i]? = some (.write p)) :
      PrintStep s i { s.setPrinter i .lockAgain with written := s.written ++ [p] }
  | lockAgain (hpc : s.printers[i]? = some .lockAgain) (hfree : s.mutexBuffor = none) :
      PrintStep s i { s.setPrinter i .test with mutexBuffor := some (.printer i) }
  | unlockEnd (hpc : s.printers[i]? = some .unlockEnd) :
      PrintStep s i { s.setPrinter i .finishEnd with mutexBuffor := none }
  | finishEnd (hpc : s.printers[i]? = some .finishEnd) :
      PrintStep s i { s.setPrinter i .done with finishedPrinting := true }

/-- What a step of requesting thread `i` can do. -/
inductive RequestStep (W : Wild) (s : State) (i : ℕ) : State → Prop
  | goesOn (hpc : s.requesters[i]? = some .test) (hfin : s.finish = false) (hstop : s.stop = false) :
      RequestStep W s i (s.setRequester i .lock)
  | quits (hpc : s.requesters[i]? = some .test) (h : ¬ (s.finish = false ∧ s.stop = false)) :
      RequestStep W s i (s.setRequester i .done)
  | lock (hpc : s.requesters[i]? = some .lock) (hfree : s.mutexBuffor = none) :
      RequestStep W s i { s.setRequester i .copy with mutexBuffor := some (.requester i) }
  | copy (hpc : s.requesters[i]? = some .copy) :
      RequestStep W s i (s.setRequester i (.unlock s.buf.set))
  | unlock {copySet : OrdMap UInt64 ℕ} (hpc : s.requesters[i]? = some (.unlock copySet)) :
      RequestStep W s i { s.setRequester i
        (if copySet.entries = [] then .unlockAgain else .reading copySet.entries []) with
        mutexBuffor := none }
  | sent {nums : List UInt64} (hpc : s.requesters[i]? = some (.reading [] nums)) :
      RequestStep W s i { s.setRequester i .test with requested := s.requested ++ [nums] }
  | read {k : UInt64} {it : ℕ} {todo : List (UInt64 × ℕ)} {nums : List UInt64}
      (hpc : s.requesters[i]? = some (.reading ((k, it) :: todo) nums)) :
      RequestStep W s i (s.setRequester i (.reading todo (nums ++ [s.buf.numAt W it])))
  | unlockAgain (hpc : s.requesters[i]? = some .unlockAgain) :
      RequestStep W s i { s.setRequester i .test with mutexBuffor := none }

theorem stepData_cases {leave : Bool} {recv : Option Datagram}
    (h : stepData W s leave recv = some s') : DataStep W s leave recv s' := by
  unfold stepData at h
  cases hd : s.data <;> rw [hd] at h <;> dsimp only at h
  case idle => cases h
  case head =>
    cases h
    split
    · exact .leaves hd ‹_›
    · exact .stays hd (Bool.not_eq_true _ ▸ ‹_›)
  case recv =>
    cases recv with
    | none => cases h; exact .nothing hd rfl
    | some d =>
      dsimp only at h
      split_ifs at h with h0 hgt hlt <;> cases h
      · exact .opens hd rfl h0
      · exact .older hd rfl h0 hgt
      · exact .newer hd rfl h0 hlt
      · exact .stores hd rfl h0 (le_antisymm (not_lt.1 hlt) (not_lt.1 hgt))
  case lockAdd =>
    obtain ⟨hfree, rfl⟩ := lock_some h
    exact .lockAdd hd hfree
  case add => cases h; exact .add hd
  case adding => cases h; exact .adding hd
  case unlockAdd => obtain rfl := unlock_some h; exact .unlockAdd hd
  case lockCheck =>
    obtain ⟨hfree, rfl⟩ := lock_some h
    exact .lockCheck hd hfree
  case check => cases h; exact .check hd
  case unlockCheck => obtain rfl := unlock_some h; exact .unlockCheck hd
  case closePrinting =>
    split_ifs at h with hf he <;> cases h
    · exact .closePrinting hd hf he
    · exact .keepPrinting hd (Bool.not_eq_true _ ▸ hf)
  case closeRequesting =>
    split_ifs at h with hf he <;> cases h
    · exact .closeRequesting hd hf he
    · exact .keepRequesting hd (Bool.not_eq_true _ ▸ hf)
  case test =>
    cases h
    split
    · exact .ends hd ‹_›
    · exact .again hd (Bool.not_eq_true _ ▸ ‹_›)
  case lockReset =>
    obtain ⟨hfree, rfl⟩ := lock_some h
    exact .lockReset hd hfree
  case reset => cases h; exact .reset hd
  case unlockReset => obtain rfl := unlock_some h; exact .unlockReset hd
  case setStop => cases h; exact .setStop hd
  case joinPrinting =>
    split_ifs at h with hp he <;> cases h
    · exact .joinPrinting hd hp he
    · exact .noPrinting hd (Bool.not_eq_true _ ▸ hp)
  case joinRequesting =>
    split_ifs at h with hr he <;> cases h
    · exact .joinRequesting hd hr he
    · exact .noRequesting hd (Bool.not_eq_true _ ▸ hr)

theorem stepPrinter_cases {pc : PrintPc} (hpc : s.printers[i]? = some pc)
    (h : stepPrinter s i pc = some s') : PrintStep s i s' := by
  unfold stepPrinter at h
  cases pc <;> dsimp only at h
  case lock =>
    obtain ⟨hfree, rfl⟩ := lock_some h
    exact .lock hpc hfree
  case test =>
    split_ifs at h with ht <;> cases h
    · exact .goesOn hpc ht.1 ht.2.1 ht.2.2
    · exact .quits hpc ht
  case pop =>
    obtain ⟨⟨p, b⟩, hb, rfl⟩ := Option.map_eq_some_iff.1 h
    exact .pop hpc hb
  case reset => cases h; exact .reset hpc
  case finishEarly => cases h; exact .finishEarly hpc
  case unlockEarly => obtain rfl := unlock_some h; exact .unlockEarly hpc
  case unlockPackage => obtain rfl := unlock_some h; exact .unlockPackage hpc
  case write => cases h; exact .write hpc
  case lockAgain =>
    obtain ⟨hfree, rfl⟩ := lock_some h
    exact .lockAgain hpc hfree
  case unlockEnd => obtain rfl := unlock_some h; exact .unlockEnd hpc
  case finishEnd => cases h; exact .finishEnd hpc
  case done => cases h

theorem stepRequester_cases {pc : RequestPc} (hpc : s.requesters[i]? = some pc)
    (h : stepRequester W s i pc = some s') : RequestStep W s i s' := by
  unfold stepRequester at h
  cases pc <;> dsimp only at h
  case test =>
    split_ifs at h with ht <;> cases h
    · exact .goesOn hpc ht.1 ht.2
    · exact .quits hpc ht
  case lock =>
    obtain ⟨hfree, rfl⟩ := lock_some h
    exact .lock hpc hfree
  case copy => cases h; exact .copy hpc
  case unlock => obtain rfl := unlock_some h; exact .unlock hpc
  case reading todo nums =>
    rcases todo with _ | ⟨⟨k, it⟩, todo⟩ <;> cases h
    · exact .sent hpc
    · exact .read hpc
  case unlockAgain => obtain rfl := unlock_some h; exact .unlockAgain hpc
  case done => cases h

/-- **What a step of the receiver can do.** -/
inductive ReceiverStep (W : Wild) (s : State) : Event → State → Prop
  | signal : ReceiverStep W s .signal { s with finish := true }
  | run (hpc : s.data = .idle) : ReceiverStep W s .run { s with
      stop := false, session := 0, printing := false, requesting := false, data := .head }
  | data {leave : Bool} {recv : Option Datagram} {s' : State} (h : DataStep W s leave recv s') :
      ReceiverStep W s (.data leave recv) s'
  | printer {i : ℕ} {s' : State} (h : PrintStep s i s') : ReceiverStep W s (.printer i) s'
  | requester {i : ℕ} {s' : State} (h : RequestStep W s i s') : ReceiverStep W s (.requester i) s'

theorem step_cases {e : Event} (h : step W s e = some s') : ReceiverStep W s e s' := by
  unfold step at h
  cases e <;> dsimp only at h
  case signal => cases h; exact .signal
  case run =>
    cases hd : s.data <;> rw [hd] at h <;> cases h
    exact .run hd
  case data => exact .data (stepData_cases h)
  case printer i =>
    obtain ⟨pc, hpc, h⟩ := Option.bind_eq_some_iff.1 h
    exact .printer (stepPrinter_cases hpc h)
  case requester i =>
    obtain ⟨pc, hpc, h⟩ := Option.bind_eq_some_iff.1 h
    exact .requester (stepRequester_cases hpc h)

/-! ### What a thread leaves alone -/

@[simp] theorem createPrinting_mutex (s : State) : s.createPrinting.mutexBuffor = s.mutexBuffor := by
  unfold State.createPrinting; split <;> rfl

@[simp] theorem createPrinting_buf (s : State) : s.createPrinting.buf = s.buf := by
  unfold State.createPrinting; split <;> rfl

@[simp] theorem createPrinting_data (s : State) : s.createPrinting.data = s.data := by
  unfold State.createPrinting; split <;> rfl

@[simp] theorem createPrinting_session (s : State) : s.createPrinting.session = s.session := by
  unfold State.createPrinting; split <;> rfl

@[simp] theorem createRequesting_mutex (s : State) :
    s.createRequesting.mutexBuffor = s.mutexBuffor := by
  unfold State.createRequesting; split <;> rfl

@[simp] theorem createRequesting_buf (s : State) : s.createRequesting.buf = s.buf := by
  unfold State.createRequesting; split <;> rfl

@[simp] theorem createRequesting_data (s : State) : s.createRequesting.data = s.data := by
  unfold State.createRequesting; split <;> rfl

@[simp] theorem createPrinting_stop (s : State) : s.createPrinting.stop = s.stop := by
  unfold State.createPrinting; split <;> rfl

@[simp] theorem createRequesting_stop (s : State) : s.createRequesting.stop = s.stop := by
  unfold State.createRequesting; split <;> rfl

@[simp] theorem createRequesting_session (s : State) : s.createRequesting.session = s.session := by
  unfold State.createRequesting; split <;> rfl

/-- All that a printing thread can do to the buffer. -/
inductive PrintBuf (b : Buffer) : Buffer → Prop
  | keep : PrintBuf b b
  | pop {p : Package} {b' : Buffer} (h : b.pop = some (p, b')) : PrintBuf b b'
  | reset : PrintBuf b b.reset

/-- A printing thread moves itself, and leaves `data_loop` and the requesting threads alone. -/
structure PrintFrame (s : State) (i : ℕ) (s' : State) : Prop where
  data : s'.data = s.data
  session : s'.session = s.session
  printing : s'.printing = s.printing
  requesting : s'.requesting = s.requesting
  requesters : s'.requesters = s.requesters
  printingThread : s'.printingThread = s.printingThread
  joined : s'.joined = s.joined
  finish : s'.finish = s.finish
  stop : s'.stop = s.stop
  finishedRequesting : s'.finishedRequesting = s.finishedRequesting
  moved : ∃ pc pc', s.printers[i]? = some pc ∧ pc ≠ .done ∧ s'.printers = s.printers.set i pc'
  buf : PrintBuf s.buf s'.buf

theorem PrintStep.frame (h : PrintStep s i s') : PrintFrame s i s' := by
  cases h with
  | pop hpc hb =>
    exact ⟨rfl, rfl, rfl, rfl, rfl, rfl, rfl, rfl, rfl, rfl, ⟨_, _, hpc, by simp, rfl⟩, .pop hb⟩
  | reset hpc =>
    exact ⟨rfl, rfl, rfl, rfl, rfl, rfl, rfl, rfl, rfl, rfl, ⟨_, _, hpc, by simp, rfl⟩, .reset⟩
  | lock hpc | goesOn hpc | quits hpc | finishEarly hpc | unlockEarly hpc | unlockPackage hpc
  | write hpc | lockAgain hpc | unlockEnd hpc | finishEnd hpc =>
    exact ⟨rfl, rfl, rfl, rfl, rfl, rfl, rfl, rfl, rfl, rfl, ⟨_, _, hpc, by simp, rfl⟩, .keep⟩

/-- A requesting thread moves itself, and leaves everything but the mutex alone. -/
structure RequestFrame (s : State) (i : ℕ) (s' : State) : Prop where
  data : s'.data = s.data
  session : s'.session = s.session
  printing : s'.printing = s.printing
  requesting : s'.requesting = s.requesting
  printers : s'.printers = s.printers
  printingThread : s'.printingThread = s.printingThread
  joined : s'.joined = s.joined
  finish : s'.finish = s.finish
  stop : s'.stop = s.stop
  finishedPrinting : s'.finishedPrinting = s.finishedPrinting
  finishedRequesting : s'.finishedRequesting = s.finishedRequesting
  buf : s'.buf = s.buf
  moved : ∃ pc pc', s.requesters[i]? = some pc ∧ s'.requesters = s.requesters.set i pc'

theorem RequestStep.frame (h : RequestStep W s i s') : RequestFrame s i s' := by
  cases h with
  | goesOn hpc | quits hpc | lock hpc | copy hpc | unlock hpc | sent hpc | read hpc
  | unlockAgain hpc =>
    exact ⟨rfl, rfl, rfl, rfl, rfl, rfl, rfl, rfl, rfl, rfl, rfl, rfl, ⟨_, _, hpc, rfl⟩⟩

end SikMimuw.Receiver
