import SikMimuw.Model.Ctrl

/-!
# The sender's threads (`main`, `ctrl_loop` and `replay_loop` of `big3/nadajnik.cpp`)

As in the receiver, a thread is a program counter with its local variables, `step` lets one
thread take its next step, and a list of events is an interleaving. The fifo is the one of
`big3/fifo.cpp`.

`main` reads from `stdin`; its event says whether `poll` found data, and then how many bytes `read`
returned. The events of `ctrl_loop` say whether a datagram has come, and give the numbers of a
request; other datagrams do not touch the shared variables. `log` is the history of what the threads
did, and `reads` that of what `main` read: nothing depends on them.

A `write` of `send_Mcast` that fails ends the program (`syserr`), so it ends the run: it is a step
that is not made.
-/

namespace SikMimuw.Transmitter

/-- `Package` of `fifo.h`. -/
structure Package where
  data : List UInt8
  num : UInt64
deriving DecidableEq

structure Fifo where
  list : List Package
  maxCount : ℕ

/-- `add_to_queue`. -/
def Fifo.addToQueue (fifo : Fifo) (data : List UInt8) (num : UInt64) : Fifo :=
  let list := fifo.list ++ [⟨data, num⟩]
  { fifo with list := if list.length > fifo.maxCount then list.tail else list }

/-- `retrieve`. -/
def Fifo.retrieve (fifo : Fifo) (num : UInt64) : List UInt8 :=
  match fifo.list.find? (·.num = num) with
  | some pack => pack.data
  | none => []

inductive Tid
  | main
  | ctrl
  | replay
deriving DecidableEq

inductive MainPc
  | head                              -- 226-230
  | read                              -- 231-238
  | lock (audioData : List UInt8)     -- 239
  | send (audioData : List UInt8)     -- 240
  | enqueue (audioData : List UInt8)  -- 241
  | advance                           -- 242
  | unlock                            -- 243
  | test                              -- 251
  | done

inductive CtrlPc
  | head                              -- 137-138
  | receive                           -- 142-149
  | lock (nums : List UInt64)         -- 150
  | insert (nums : List UInt64)       -- 151, in `add_to_set`
  | unlock                            -- 152
  | test                              -- 157
  | done

inductive ReplayPc
  | lockRequests                                           -- 169
  | copy                                                   -- 170
  | clear (copyRequests : List UInt64)                     -- 171
  | unlockRequests (copyRequests : List UInt64)            -- 172
  | lockMcast (copyRequests : List UInt64)                 -- 174
  | retrieve (todo : List UInt64)                          -- 175-177
  | send (data : List UInt8) (num : UInt64) (todo : List UInt64)  -- 178
  | unlockMcast                                            -- 181
  | test                                                   -- 182
  | done
deriving DecidableEq

inductive Entry
  | sent (num : UInt64) (data : List UInt8)    -- by `main`
  | resent (num : UInt64) (data : List UInt8)  -- by `replay_loop`
  | inserted (num : UInt64)
  | copied (copyRequests : List UInt64)
  | locked                                     -- `replay_loop` has `mutex_mcast_socket`
  | unlocked
deriving DecidableEq

structure State where
  stdin : List UInt8
  byteNum : UInt64
  fifo : Fifo
  retransmisionRequests : OrdSet UInt64
  mutexRequests : Option Tid
  mutexMcastSocket : Option Tid
  finish : Bool
  main : MainPc
  ctrl : CtrlPc
  replay : ReplayPc
  log : List Entry
  reads : List (List UInt8)

/-- The state in which `main` has created the two threads. -/
def State.init (params : Parameters) (stdin : List UInt8) : State where
  stdin := stdin
  byteNum := 0
  fifo := ⟨[], params.fsize / params.psize⟩
  retransmisionRequests := OrdMap.empty
  mutexRequests := none
  mutexMcastSocket := none
  finish := false
  main := .head
  ctrl := .head
  replay := .lockRequests
  log := []
  reads := []

inductive Event
  | signal                             -- `catch_interput`
  | main (lenRead : Option ℕ)
  | ctrl (nums : Option (List UInt64))
  | replay

/-- `pthread_mutex_lock(&mutex_requests)` by `t`, then `s'`. -/
def State.lockRequests (s : State) (t : Tid) (s' : State) : Option State :=
  if s.mutexRequests = none then some { s' with mutexRequests := some t } else none

/-- `pthread_mutex_lock(&mutex_mcast_socket)` by `t`, then `s'`. -/
def State.lockMcast (s : State) (t : Tid) (s' : State) : Option State :=
  if s.mutexMcastSocket = none then some { s' with mutexMcastSocket := some t } else none

/-- The history with one more entry. -/
def State.record (s : State) (o : Entry) : State := { s with log := s.log ++ [o] }

/-- `read` returns the next `lenRead` bytes, none only at the end of `stdin`. -/
def State.read (params : Parameters) (s : State) (lenRead : ℕ) : Option State :=
  if lenRead ≤ params.psize ∧ lenRead ≤ s.stdin.length ∧ (lenRead = 0 → s.stdin = []) then
    let audioData := s.stdin.take lenRead
    some { s with
      stdin := s.stdin.drop lenRead
      reads := s.reads ++ [audioData]
      finish := s.finish || lenRead = 0
      main := if lenRead = params.psize then .lock audioData else .test }
  else none

/-- The next step of `main`. -/
def stepMain (params : Parameters) (s : State) (lenRead : Option ℕ) : Option State :=
  match s.main with
  | .head => some { s with main := if s.finish = false ∧ lenRead.isSome then .read else .test }
  | .read => lenRead.bind (s.read params)
  | .lock audioData => s.lockMcast .main { s with main := .send audioData }
  | .send audioData =>
    some { s.record (.sent s.byteNum audioData) with main := .enqueue audioData }
  | .enqueue audioData =>
    some { s with fifo := s.fifo.addToQueue audioData s.byteNum, main := .advance }
  | .advance => some { s with byteNum := s.byteNum + UInt64.ofNat params.psize, main := .unlock }
  | .unlock => some { s with mutexMcastSocket := none, main := .test }
  | .test => some { s with main := if s.finish then .done else .head }
  | .done => none

/-- The next step of `ctrl_loop`. -/
def stepCtrl (s : State) (nums : Option (List UInt64)) : Option State :=
  match s.ctrl with
  | .head => some { s with ctrl := if s.finish = false ∧ nums.isSome then .receive else .test }
  | .receive =>
    match nums with
    | some nums => some { s with ctrl := .lock nums }
    | none => some { s with ctrl := .test }
  | .lock nums => s.lockRequests .ctrl { s with ctrl := .insert nums }
  | .insert (num :: nums) =>
    some { s.record (.inserted num) with
      retransmisionRequests := s.retransmisionRequests.insert num, ctrl := .insert nums }
  | .insert [] => some { s with ctrl := .unlock }
  | .unlock => some { s with mutexRequests := none, ctrl := .test }
  | .test => some { s with ctrl := if s.finish then .done else .head }
  | .done => none

/-- The next step of `replay_loop`. -/
def stepReplay (params : Parameters) (s : State) : Option State :=
  match s.replay with
  | .lockRequests => s.lockRequests .replay { s with replay := .copy }
  | .copy =>
    let copyRequests := s.retransmisionRequests.keys
    some { s.record (.copied copyRequests) with replay := .clear copyRequests }
  | .clear copyRequests =>
    some { s with retransmisionRequests := OrdMap.empty, replay := .unlockRequests copyRequests }
  | .unlockRequests copyRequests =>
    some { s with mutexRequests := none, replay := .lockMcast copyRequests }
  | .lockMcast copyRequests =>
    s.lockMcast .replay { s.record .locked with replay := .retrieve copyRequests }
  | .retrieve (num :: todo) =>
    let audioData := s.fifo.retrieve num
    some { s with
      replay := if audioData.length = params.psize then .send audioData num todo
        else .retrieve todo }
  | .retrieve [] => some { s with replay := .unlockMcast }
  | .send audioData num todo =>
    some { s.record (.resent num audioData) with replay := .retrieve todo }
  | .unlockMcast => some { s.record .unlocked with mutexMcastSocket := none, replay := .test }
  | .test => some { s with replay := if s.finish then .done else .lockRequests }
  | .done => none

/-- **One step of the sender.** -/
def step (params : Parameters) (s : State) : Event → Option State
  | .signal => some { s with finish := true }
  | .main lenRead => stepMain params s lenRead
  | .ctrl nums => stepCtrl s nums
  | .replay => stepReplay params s

end SikMimuw.Transmitter
