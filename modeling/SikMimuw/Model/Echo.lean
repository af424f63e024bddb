import Mathlib.Data.Int.Notation
import Mathlib.Data.Nat.Notation
import Mathlib.Logic.Function.Basic

/-!
# The echo server (`scenariusze/07.gniazda-TCP-z-wieloma-klientami/nonblocking-socket/echo-server-nonblocking.c`)

The loop of `main`, a call of the kernel a step, with signals between any two of them. `files` are
the open sockets and `conns` the connections that `accept` has returned, with the bytes that `read`
and `write` have moved: what the kernel knows. A call on a descriptor that is not open fails.

* Left out: the texts on `stderr`, `fcntl`, the results of `close`, and `exit` before the loop.
* `POLLHUP` and `POLLNVAL` are not looked at by the program.
-/

namespace SikMimuw.Echo

/-- `_POSIX_OPEN_MAX`. -/
def posixOpenMax : ℕ := 20
def bufSize : ℕ := 50000

inductive Events
  | pollin
  | pollout
deriving DecidableEq

structure Revents where
  pollin : Bool
  pollout : Bool
  pollerr : Bool
deriving DecidableEq

def Revents.zero : Revents := ⟨false, false, false⟩

/-- `client[i]`, `buf[i]`, `buf_len[i]` and `buf_pos[i]`. -/
structure Client where
  fd : ℤ
  events : Events
  revents : Revents
  buf : List UInt8
  bufLen : ℤ
  bufPos : ℤ

/-- What `buf + buf_pos` points to, `buf_len - buf_pos` bytes. -/
def Client.rest (c : Client) : List UInt8 := (c.buf.drop c.bufPos.toNat).take (c.bufLen - c.bufPos).toNat

structure Conn where
  received : List UInt8
  sent : List UInt8
  closes : ℕ
deriving DecidableEq

inductive File
  | listener
  | conn (c : ℕ)
deriving DecidableEq

inductive Pc
  | top            -- 88
  | poll           -- 99
  | accept         -- 104
  | accepting      -- 106
  | read (i : ℕ)   -- 130
  | write (i : ℕ)  -- 155
  | bottom         -- 177
  | done
deriving DecidableEq

structure State where
  pc : Pc
  finish : Bool
  client : ℕ → Client
  activeClients : ℤ
  files : ℤ → Option File
  conns : List Conn

/-- The loop is entered. `buf_len`, `buf_pos`, `revents` and what is in the buffers are not set yet,
and a signal may have come. -/
structure State.Initial (s : State) : Prop where
  pc : s.pc = .top
  clients : ∀ i, i ≠ 0 → (s.client i).fd = -1 ∧ (s.client i).events = .pollin
  buf : ∀ i, (s.client i).buf.length = bufSize
  listener : 0 ≤ (s.client 0).fd
  files : ∀ fd, s.files fd = if fd = (s.client 0).fd then some .listener else none
  activeClients : s.activeClients = 0
  conns : s.conns = []

def State.setClient (s : State) (i : ℕ) (c : Client) : State :=
  { s with client := Function.update s.client i c }

/-! ### The kernel -/

/-- The connection behind a descriptor. -/
def State.connOf (s : State) (fd : ℤ) : Option ℕ :=
  match s.files fd with
  | some (.conn c) => some c
  | _ => none

def State.modifyConn (s : State) (c : ℕ) (f : Conn → Conn) : State :=
  { s with conns := s.conns.modify c f }

/-- `close(fd)`. -/
def State.close (s : State) (fd : ℤ) : State :=
  let t := { s with files := Function.update s.files fd none }
  match s.connOf fd with
  | some c => t.modifyConn c fun k => { k with closes := k.closes + 1 }
  | none => t

/-- What `poll` can report: nothing of a descriptor below 0, and no more than was asked for, but for
errors. -/
def State.Reports (s : State) (revents : ℕ → Revents) : Prop := ∀ i < posixOpenMax,
  ((s.client i).fd < 0 → revents i = .zero) ∧
  ((revents i).pollin = true → (s.client i).events = .pollin) ∧
  ((revents i).pollout = true → (s.client i).events = .pollout)

instance (s : State) (revents : ℕ → Revents) : Decidable (s.Reports revents) :=
  inferInstanceAs (Decidable (∀ i < posixOpenMax, _ ∧ _ ∧ _))

/-- A new connection behind `fd`. -/
def State.connect (s : State) (fd : ℤ) : State := { s with
  files := Function.update s.files fd (some (.conn s.conns.length))
  conns := s.conns ++ [⟨[], [], 0⟩] }

/-! ### The program -/

/-- Lines 92 to 96. -/
def State.closeMain (s : State) : State :=
  if s.finish = true ∧ 0 ≤ (s.client 0).fd then
    (s.close (s.client 0).fd).setClient 0 { s.client 0 with fd := -1 }
  else s

def State.clearRevents (s : State) : State :=
  { s with client := fun i => { s.client i with revents := .zero } }

/-- The test of line 104. -/
def State.accepts (s : State) : Bool := s.finish == false && (s.client 0).revents.pollin

/-- The loop over free slots. -/
def State.freeSlot (s : State) : Option ℕ :=
  (List.range' 1 (posixOpenMax - 1)).find? fun i => (s.client i).fd = -1

/-- Lines 110 to 125, for the descriptor `msgsock` of a new connection. -/
def State.newClient (s : State) (msgsock : ℤ) : State :=
  match s.freeSlot with
  | some i =>
    { s.setClient i { s.client i with fd := msgsock, events := .pollin } with
      activeClients := s.activeClients + 1 }
  | none => s.close msgsock

/-- A client is given up. -/
def State.endClient (s : State) (i : ℕ) : State :=
  { (s.close (s.client i).fd).setClient i { s.client i with fd := -1 } with
    activeClients := s.activeClients - 1 }

/-- The test of line 130. -/
def State.reads (s : State) (i : ℕ) : Bool :=
  (s.client i).fd != -1 && ((s.client i).revents.pollin || (s.client i).revents.pollerr)

/-- Lines 132 to 152: `read` has returned `data`, or -1. -/
def State.readClient (s : State) (i : ℕ) : Option (List UInt8) → State
  | none => s.endClient i
  | some [] => s.endClient i
  | some data => s.setClient i { s.client i with
      buf := data ++ (s.client i).buf.drop data.length
      bufLen := data.length
      bufPos := 0
      events := .pollout }

/-- The test of line 155. -/
def State.writes (s : State) (i : ℕ) : Bool :=
  (s.client i).fd != -1 && (s.client i).revents.pollout

/-- Lines 157 to 172: `write` has returned a number, or -1. -/
def State.writeClient (s : State) (i : ℕ) : Option ℕ → State
  | none => s.endClient i
  | some rval =>
    let bufPos := (s.client i).bufPos + rval
    s.setClient i { s.client i with
      bufPos
      events := if bufPos = (s.client i).bufLen then .pollin else (s.client i).events }

/-- The next turn of the loop over the clients. -/
def next (i : ℕ) : Pc := if i + 1 < posixOpenMax then .read (i + 1) else .bottom

/-- Lines 177 to 182. -/
def State.bottom (s : State) : State :=
  if s.finish = false ∨ 0 < s.activeClients then { s with pc := .top }
  else if 0 ≤ (s.client 0).fd then { s.close (s.client 0).fd with pc := .done }
  else { s with pc := .done }

inductive Event
  | signal
  | go                                     -- no result of the kernel is used
  | poll (revents : Option (ℕ → Revents))  -- none for an error or the end of the time
  | accept (fd : Option ℤ)
  | read (data : Option (List UInt8))
  | write (rval : Option ℕ)

/-- The bytes of a `read` come from a connection. -/
def State.stepRead (s : State) (i : ℕ) : Option (List UInt8) → Option State
  | none => some (s.readClient i none)
  | some data =>
    match s.connOf (s.client i).fd with
    | none => none
    | some c =>
      if data.length ≤ bufSize then
        some ((s.modifyConn c fun k => { k with received := k.received ++ data }).readClient i (some data))
      else none

/-- The bytes of a `write` go to a connection. -/
def State.stepWrite (s : State) (i : ℕ) : Option ℕ → Option State
  | none => some (s.writeClient i none)
  | some rval =>
    match s.connOf (s.client i).fd with
    | none => none
    | some c =>
      if (rval : ℤ) ≤ (s.client i).bufLen - (s.client i).bufPos then
        some ((s.modifyConn c fun k =>
          { k with sent := k.sent ++ (s.client i).rest.take rval }).writeClient i (some rval))
      else none

def State.stepAccept (s : State) : Option ℤ → Option State
  | none => some s
  | some fd => if 0 ≤ fd ∧ s.files fd = none then some ((s.connect fd).newClient fd) else none

def step (s : State) : Event → Option State
  | .signal => if s.pc = .done then none else some { s with finish := true }
  | .go =>
    match s.pc with
    | .top => some { s.clearRevents.closeMain with pc := .poll }
    | .accept => some { s with pc := if s.accepts then .accepting else .read 1 }
    | .read i => if s.reads i then none else some { s with pc := .write i }
    | .write i => if s.writes i then none else some { s with pc := next i }
    | .bottom => some s.bottom
    | _ => none
  | .poll revents =>
    match s.pc, revents with
    | .poll, none => some { s with pc := .bottom }
    | .poll, some revents =>
      if s.Reports revents then
        some { s with
          pc := .accept
          client := fun i => { s.client i with revents := revents i } }
      else none
    | _, _ => none
  | .accept fd =>
    match s.pc with
    | .accepting => (s.stepAccept fd).map ({ · with pc := .read 1 })
    | _ => none
  | .read data =>
    match s.pc with
    | .read i => if s.reads i then (s.stepRead i data).map ({ · with pc := .write i }) else none
    | _ => none
  | .write rval =>
    match s.pc with
    | .write i => if s.writes i then (s.stepWrite i rval).map ({ · with pc := next i }) else none
    | _ => none

end SikMimuw.Echo
