import SikMimuw.Lib.CString
import Mathlib.Logic.Function.Basic

/-!
# The file server (`08.gniazda-programowanie-sterowane-zdarzeniami/server.c`)

A client sends the name of its file, a NUL and the content (`read_file` of `client.c`). The first
read of a connection is taken for the name, and all callbacks write to one global `filedesc`.

* There are no files at first, and `open` succeeds: no name leads to another directory.
* At the end of a stream the server writes `Koniec` to the client, and takes any result but 0 for an
  error: `syserr` ends it.
-/

namespace SikMimuw.Transfer

open CStr

/-- A client of the server, with a name that the task allows. -/
structure Client where
  name : List UInt8
  content : List UInt8
  name_pos : 1 ≤ name.length
  name_le : name.length ≤ 15
  name_ne : 0 ∉ name

/-- What `read_file` sends. -/
def Client.stream (c : Client) : List UInt8 := c.name ++ 0 :: c.content

/-- A connection: not yet accepted, in the slot of a `read_filename` or a `client_socket_cb`, or
without a slot again. `rest` is what the server has not read. -/
inductive Connection
  | waiting (rest : List UInt8)
  | naming (rest : List UInt8)
  | receiving (filename rest : List UInt8)
  | closed
deriving DecidableEq

/-- The connection has a slot. -/
def Connection.hasSlot : Connection → Bool
  | .naming _ | .receiving .. => true
  | _ => false

/-- `filedesc` is the path of an open file and the offset in it. -/
structure Server where
  connections : List Connection
  files : List UInt8 → Option (List UInt8)
  filedesc : Option (List UInt8 × ℕ)
  exited : Bool

def maxClients : ℕ := 16
def bufSize : ℕ := 16

def init (clients : List Client) : Server :=
  ⟨clients.map fun c => .waiting c.stream, fun _ => none, none, false⟩

/-- A file after `bytes` were written at an offset. -/
def overwrite (content : List UInt8) (offset : ℕ) (bytes : List UInt8) : List UInt8 :=
  content.take offset ++ bytes ++ content.drop (offset + bytes.length)

/-- `write(filedesc, bytes)`. -/
def Server.write (s : Server) (bytes : List UInt8) : Server :=
  match s.filedesc with
  | none => { s with exited := true }
  | some (path, offset) => { s with
      files := Function.update s.files path ((s.files path).map fun c => overwrite c offset bytes)
      filedesc := some (path, offset + bytes.length) }

/-- `filedesc = open(path, O_WRONLY | O_CREAT)`. -/
def Server.openFile (s : Server) (path : List UInt8) : Server :=
  { s with
    files := Function.update s.files path (some ((s.files path).getD []))
    filedesc := some (path, 0) }

def Server.setConnection (s : Server) (i : ℕ) (c : Connection) : Server :=
  { s with connections := s.connections.set i c }

def copyPath (name : List UInt8) : List UInt8 := bytes "copy-" ++ name

/-- The string in the buffer of `read_filename`, behind which it has stored a NUL. -/
def bufString (buf : List UInt8) : List UInt8 := buf.takeWhile (· ≠ 0)

/-- **`read_filename`**, after a read of `buf`. -/
def Server.readFilename (s : Server) (i : ℕ) (buf rest : List UInt8) : Server :=
  let s := s.openFile (copyPath (bufString buf))
  let s :=
    if (bufString buf).length ≠ buf.length then s.write (buf.drop (bufString buf).length) else s
  s.setConnection i (.receiving (copyPath (bufString buf)) rest)

/-- What happens to connection `i`. -/
inductive Event
  /-- The listener accepts it. -/
  | accept (i : ℕ)
  /-- A callback reads `r` bytes, or comes to the end of the stream. -/
  | read (i r : ℕ)

/-- **One callback.** -/
def step (s : Server) (e : Event) : Option Server :=
  if s.exited then none
  else match e with
  | .accept i =>
    match s.connections[i]? with
    | some (.waiting rest) =>
      if s.connections.countP Connection.hasSlot < maxClients then
        some (s.setConnection i (.naming rest))
      else some (s.setConnection i .closed)
    | _ => none
  | .read i r =>
    match s.connections[i]? with
    | some (.naming rest) =>
      if rest = [] then some (s.setConnection i .closed)
      else if 1 ≤ r ∧ r ≤ bufSize ∧ r ≤ rest.length then
        some (s.readFilename i (rest.take r) (rest.drop r))
      else none
    | some (.receiving filename rest) =>
      if rest = [] then some { s with exited := true }
      else if 1 ≤ r ∧ r ≤ bufSize ∧ r ≤ rest.length then
        some ((s.write (rest.take r)).setConnection i (.receiving filename (rest.drop r)))
      else none
    | _ => none

end SikMimuw.Transfer
