import SikMimuw.Model.Ping

/-!
# Numbers over TCP (`scenariusze/06.gniazda-TCP/nums-client.c`, `nums-server.c`)

The client sends each number that it reads in a packed structure of six bytes, the server collects the
structures from reads of any length and prints them. Left out: the set-up of the sockets, the other
lines that are printed, and the ends by `syserr` (a failing call, a partial write).
-/

namespace SikMimuw.Nums

open Endian Ping

/-- The structure as it stands in a host's memory. -/
structure DataStructure where
  seqNo : UInt16
  number : UInt32

/-- `sizeof(struct DataStructure)`, which is packed. -/
def sizeofData : ℕ := 6

def DataStructure.bytes (e : Endian) (d : DataStructure) : List UInt8 :=
  e.store 2 d.seqNo.toNat ++ e.store 4 d.number.toNat

def DataStructure.ofBytes (e : Endian) (mem : List UInt8) : DataStructure where
  seqNo := UInt16.ofNat (e.load (mem.take 2))
  number := UInt32.ofNat (e.load ((mem.drop 2).take 4))

/-! ### The client -/

/-- The loop of `main` over the numbers that `scanf` returns: what is written. `seq_no` is an `int`,
whose overflow is none. -/
def send (e : Endian) : ℕ → List Int32 → Option (List UInt8)
  | _, [] => some []
  | seqNo, number :: numbers =>
    if seqNo + 1 < 2 ^ 31 then
      let dataToSend : DataStructure := ⟨htons e (UInt16.ofNat seqNo), htonl e number.toUInt32⟩
      (send e (seqNo + 1) numbers).map (dataToSend.bytes e ++ ·)
    else none

/-! ### The server -/

/-- `printed` are the numbers on `stdout`. `data_read` and `prev_len` are not set at first. -/
structure Server where
  prevLen : ℕ
  dataRead : List UInt8
  printed : List (UInt16 × UInt32)

/-- Lines 59 to 68, for the bytes of a `read`. -/
def Server.read (e : Endian) (s : Server) (bytes : List UInt8) : Server :=
  let dataRead := s.dataRead.take s.prevLen ++ bytes ++ s.dataRead.drop (s.prevLen + bytes.length)
  let prevLen := s.prevLen + bytes.length
  if prevLen = sizeofData then
    let data := DataStructure.ofBytes e dataRead
    { prevLen := 0
      dataRead
      printed := s.printed ++ [(ntohs e data.seqNo, ntohl e data.number)] }
  else { s with prevLen, dataRead }

/-- The loop over a connection, from what its calls of `read` return up to the end of the stream: some
bytes, `remains` at most. -/
def Server.reads (e : Endian) : List (List UInt8) → Server → Option Server
  | [], s => some s
  | bytes :: reads, s =>
    if bytes ≠ [] ∧ bytes.length ≤ sizeofData - s.prevLen then Server.reads e reads (s.read e bytes)
    else none

/-- The loop of `main` over the connections. -/
def Server.accepts (e : Endian) : List (List (List UInt8)) → Server → Option Server
  | [], s => some s
  | reads :: conns, s => (Server.reads e reads { s with prevLen := 0 }).bind (Server.accepts e conns)

end SikMimuw.Nums
