import SikMimuw.Model.Buffor

/-!
# The receiver's threads (`big3/odbiornik.cpp`)

`data_loop`, the printing threads and the requesting threads it creates, and `main`, which
starts `data_loop` anew when it returns. A thread is a program counter with its local
variables; a counter stands before the line its comment names. `step` lets one thread take
its next step, so a list of events is an interleaving. A call of `add_to_buffor` is as many
steps as its loop has passes.

`mutex_buffor` is a default mutex: an unlock frees it, whoever holds it. The menu is seen
through `leave`, the outcome of the test at lines 297-306. The descriptors, the sockets and
`mutex_ctrl` are left out. A `pthread_join` of a thread that was joined before, or was never created,
returns at once.
-/

namespace SikMimuw.Receiver

/-- A datagram with its header decoded (lines 310-313, 322). -/
structure Datagram where
  session : UInt64
  num : UInt64
  data : List UInt8

inductive Tid
  | data
  | printer (i : ℕ)
  | requester (i : ℕ)
deriving DecidableEq

/-- `data_loop`. -/
inductive DataPc
  | idle                                             -- no `data_loop` runs
  | head                                             -- 297
  | recv                                             -- 308
  | lockAdd (num : UInt64) (data : List UInt8)       -- 323
  | add (num : UInt64) (data : List UInt8)           -- 324
  | adding (num : UInt64) (data : List UInt8)        -- in the loop of `add_to_buffor`
  | unlockAdd                                        -- 326
  | lockCheck                                        -- 329
  | check                                            -- 330
  | unlockCheck                                      -- 338
  | closePrinting                                    -- 269, in `try_close_threads`
  | closeRequesting                                  -- 274, in `try_close_threads`
  | test                                             -- 341
  | lockReset                                        -- 343
  | reset                                            -- 344
  | unlockReset                                      -- 345
  | setStop                                          -- 346
  | joinPrinting                                     -- 347
  | joinRequesting                                   -- 351

/-- `printing_loop`. -/
inductive PrintPc
  | lock                       -- 364
  | test                       -- 365
  | pop                        -- 366
  | reset                      -- 369
  | finishEarly                -- 370
  | unlockEarly                -- 371
  | unlockPackage (p : Package) -- 374
  | write (p : Package)        -- 376
  | lockAgain                  -- 377
  | unlockEnd                  -- 379
  | finishEnd                  -- 380
  | done
deriving DecidableEq

/-- `requesting_loop`. -/
inductive RequestPc
  | test                                                     -- 233
  | lock                                                     -- 235
  | copy                                                     -- 236
  | unlock (copySet : OrdMap UInt64 ℕ)                       -- 237
  | reading (todo : List (UInt64 × ℕ)) (nums : List UInt64)  -- 243
  | unlockAgain                                              -- 262
  | done

/-- The receiver: shared variables, the local variables of `data_loop`, and the threads. -/
structure State where
  buf : Buffer
  mutexBuffor : Option Tid
  finish : Bool
  stop : Bool
  finishedPrinting : Bool
  finishedRequesting : Bool
  data : DataPc
  session : UInt64
  printing : Bool
  requesting : Bool
  printers : List PrintPc
  requesters : List RequestPc
  /-- `printing_thread` and `requesting_thread`, the threads last created -/
  printingThread : Option ℕ
  requestingThread : Option ℕ
  /-- the calls of `pthread_join` that returned -/
  joined : List Tid
  written : List Package
  requested : List (List UInt64)

/-- The state in which `main` enters its loop. -/
def State.init (maxData : UInt64) : State where
  buf := Buffer.init maxData
  mutexBuffor := none
  finish := false
  stop := false
  finishedPrinting := false
  finishedRequesting := false
  data := .idle
  session := 0
  printing := false
  requesting := false
  printers := []
  requesters := []
  printingThread := none
  requestingThread := none
  joined := []
  written := []
  requested := []

inductive Event
  | signal                                              -- `catch_interput`
  | run                                                 -- `main` creates a `data_loop`
  | data (leave : Bool) (recv : Option Datagram)
  | printer (i : ℕ)
  | requester (i : ℕ)

/-- `pthread_mutex_lock(&mutex_buffor)` by `t`, then `s'`. -/
def State.lock (s : State) (t : Tid) (s' : State) : Option State :=
  if s.mutexBuffor = none then some { s' with mutexBuffor := some t } else none

/-- `pthread_mutex_unlock(&mutex_buffor)`, then `s'`. -/
def State.unlock (s' : State) : Option State := some { s' with mutexBuffor := none }

/-- The state after one step of the thread in `add_to_buffor`. -/
def State.inCall (s : State) (num : UInt64) (data : List UInt8) (c : Call) : State :=
  { s with buf := c.buf, data := if c.done then .unlockAdd else .adding num data }

/-- Lines 330-333. -/
def State.createPrinting (s : State) : State :=
  if UInt64.ofNat s.buf.packages.size * 4 ≥ s.buf.size * 3 ∧ s.printing = false then
    { s with
      printers := s.printers ++ [.lock]
      printingThread := some s.printers.length
      printing := true }
  else s

/-- Lines 334-337. -/
def State.createRequesting (s : State) : State :=
  if s.buf.set.entries ≠ [] ∧ s.requesting = false then
    { s with
      requesters := s.requesters ++ [.test]
      requestingThread := some s.requesters.length
      requesting := true }
  else s

/-- `pthread_join(printing_thread)` can return: the thread has ended, joined before or not, or there
was none. -/
def State.printingEnded (s : State) : Bool :=
  match s.printingThread with
  | none => true
  | some i => s.printers[i]? = some .done

/-- `pthread_join(requesting_thread)` can return. -/
def State.requestingEnded (s : State) : Bool :=
  match s.requestingThread with
  | none => true
  | some i => match s.requesters[i]? with
    | some .done => true
    | _ => false

/-- `pthread_join(printing_thread)` returned. -/
def State.joinPrinting (s : State) : State :=
  { s with joined := s.joined ++ (s.printingThread.map Tid.printer).toList }

/-- `pthread_join(requesting_thread)` returned. -/
def State.joinRequesting (s : State) : State :=
  { s with joined := s.joined ++ (s.requestingThread.map Tid.requester).toList }

/-- The next step of `data_loop`. -/
def stepData (W : Wild) (s : State) (leave : Bool) (recv : Option Datagram) : Option State :=
  match s.data with
  | .idle => none
  | .head => some { s with data := if leave then .lockReset else .recv }
  | .recv =>
    match recv with
    | none => some { s with data := .lockCheck }
    | some d =>
      if s.session = 0 then some { s with session := d.session, data := .lockAdd d.num d.data }
      else if s.session > d.session then some { s with data := .test }
      else if s.session < d.session then some { s with data := .lockReset }
      else some { s with data := .lockAdd d.num d.data }
  | .lockAdd num data => s.lock .data { s with data := .add num data }
  | .add num data => some (s.inCall num data (s.buf.enter num data))
  | .adding num data => some (s.inCall num data (Call.pass W num data ⟨s.buf, [], false⟩))
  | .unlockAdd => State.unlock { s with data := .lockCheck }
  | .lockCheck => s.lock .data { s with data := .check }
  | .check => some { s.createPrinting.createRequesting with data := .unlockCheck }
  | .unlockCheck => State.unlock { s with data := .closePrinting }
  | .closePrinting =>
    if s.finishedPrinting then
      if s.printingEnded then
        some { s.joinPrinting with
          finishedPrinting := false, printing := false, data := .closeRequesting }
      else none
    else some { s with data := .closeRequesting }
  | .closeRequesting =>
    if s.finishedRequesting then
      if s.requestingEnded then
        some { s.joinRequesting with finishedPrinting := false, requesting := false, data := .test }
      else none
    else some { s with data := .test }
  | .test => some { s with data := if s.finish then .lockReset else .head }
  | .lockReset => s.lock .data { s with data := .reset }
  | .reset => some { s with buf := s.buf.reset, data := .unlockReset }
  | .unlockReset => State.unlock { s with data := .setStop }
  | .setStop => some { s with stop := true, data := .joinPrinting }
  | .joinPrinting =>
    if s.printing then
      if s.printingEnded then
        some { s.joinPrinting with finishedPrinting := false, data := .joinRequesting }
      else none
    else some { s with data := .joinRequesting }
  | .joinRequesting =>
    -- line 352 joins `printing_thread` once more
    if s.requesting then
      if s.printingEnded then
        some { s.joinPrinting with finishedRequesting := false, data := .idle }
      else none
    else some { s with data := .idle }

/-- Printing thread `i` moves to `pc`. -/
def State.setPrinter (s : State) (i : ℕ) (pc : PrintPc) : State :=
  { s with printers := s.printers.set i pc }

/-- The next step of printing thread `i`, which stands at `pc`. -/
def stepPrinter (s : State) (i : ℕ) : PrintPc → Option State
  | .lock => s.lock (.printer i) (s.setPrinter i .test)
  | .test =>
    if s.buf.packages.values ≠ [] ∧ s.finish = false ∧ s.stop = false then
      some (s.setPrinter i .pop)
    else some (s.setPrinter i .unlockEnd)
  | .pop =>
    s.buf.pop.map fun (p, b) =>
      { s.setPrinter i (if p.data = [] then .reset else .unlockPackage p) with buf := b }
  | .reset => some { s.setPrinter i .finishEarly with buf := s.buf.reset }
  | .finishEarly => some { s.setPrinter i .unlockEarly with finishedPrinting := true }
  | .unlockEarly => State.unlock (s.setPrinter i .done)
  | .unlockPackage p => State.unlock (s.setPrinter i (.write p))
  | .write p => some { s.setPrinter i .lockAgain with written := s.written ++ [p] }
  | .lockAgain => s.lock (.printer i) (s.setPrinter i .test)
  | .unlockEnd => State.unlock (s.setPrinter i .finishEnd)
  | .finishEnd => some { s.setPrinter i .done with finishedPrinting := true }
  | .done => none

/-- Requesting thread `i` moves to `pc`. -/
def State.setRequester (s : State) (i : ℕ) (pc : RequestPc) : State :=
  { s with requesters := s.requesters.set i pc }

/-- `elem.second->num`. -/
def Buffer.numAt (W : Wild) (b : Buffer) (it : ℕ) : UInt64 :=
  match b.packages.deref it with
  | some p => p.num
  | none => W.stale b it

/-- The next step of requesting thread `i`, which stands at `pc`. -/
def stepRequester (W : Wild) (s : State) (i : ℕ) : RequestPc → Option State
  | .test =>
    if s.finish = false ∧ s.stop = false then some (s.setRequester i .lock)
    else some (s.setRequester i .done)
  | .lock => s.lock (.requester i) (s.setRequester i .copy)
  | .copy => some (s.setRequester i (.unlock s.buf.set))
  | .unlock copySet =>
    State.unlock (s.setRequester i
      (if copySet.entries = [] then .unlockAgain else .reading copySet.entries []))
  | .reading [] nums => some { s.setRequester i .test with requested := s.requested ++ [nums] }
  | .reading ((_, it) :: todo) nums =>
    some (s.setRequester i (.reading todo (nums ++ [s.buf.numAt W it])))
  | .unlockAgain => State.unlock (s.setRequester i .test)
  | .done => none

/-- **One step of the receiver.** -/
def step (W : Wild) (s : State) : Event → Option State
  | .signal => some { s with finish := true }
  | .run =>
    match s.data with
    | .idle => some { s with
        stop := false, session := 0, printing := false, requesting := false, data := .head }
    | _ => none
  | .data leave recv => stepData W s leave recv
  | .printer i => s.printers[i]?.bind (stepPrinter s i)
  | .requester i => s.requesters[i]?.bind (stepRequester W s i)

end SikMimuw.Receiver
