import SikMimuw.Lib.Getopt
import SikMimuw.Lib.Words

/-!
# The sender's command line (`big3/argument_parser.cpp`)

`parseArgumentsTransmiter` runs on the arguments behind the program's name. `syserr` ends the
program with a message, and `overrun` is a `strcpy` past the end of an array, which C gives no
meaning.
-/

namespace SikMimuw.Arguments

open CStr Getopt

structure Parameters where
  mcastAddr : List UInt8
  discoverAddr : List UInt8
  dataPort : ℤ
  ctrlPort : ℤ
  uiPort : ℤ
  psize : ℤ
  bsize : ℤ
  fsize : ℤ
  rtime : ℤ
  nazwa : List UInt8
deriving DecidableEq

inductive Failure
  | syserr (msg : List UInt8)
  | overrun
deriving DecidableEq

/-- The options of `":a:d:C:U:b:f:R:p:n:"`. -/
inductive Letter
  | a | d | C | U | b | f | R | p | n
deriving DecidableEq

def Letter.ofChar (c : UInt8) : Option Letter :=
  if c = 97 then some a
  else if c = 100 then some d
  else if c = 67 then some C
  else if c = 85 then some U
  else if c = 98 then some b
  else if c = 102 then some f
  else if c = 82 then some R
  else if c = 112 then some p
  else if c = 110 then some n
  else none

def syserr {α : Type} (msg : List UInt8) : Except Failure α := .error (.syserr msg)

/-- `convertPort`: the number that is stored. -/
def convertPort (optarg : List UInt8) : Except Failure ℤ :=
  let port := strtol optarg
  if port < 0 then syserr (bytes "error reading port")
  else if port < 0 ∨ port > 65535 then
    syserr (bytes "Port number should be between 0 and UINT16_MAX")
  else .ok port

/-- `convertNumber`. -/
def convertNumber (optarg : List UInt8) : Except Failure ℤ :=
  let number := strtol optarg
  if number < 0 then syserr (bytes "error converting number")
  else if number < 0 then syserr (bytes "number should be greater than 0")
  else .ok number

/-- `strcpy` to an array of `size` bytes. -/
def strcpy (size : ℕ) (s : List UInt8) : Except Failure (List UInt8) :=
  if s.length < size then .ok s else .error .overrun

/-- `defaullParams`. -/
def defaullParams : Parameters where
  mcastAddr := bytes "255.255.255.255"
  discoverAddr := bytes "255.255.255.255"
  dataPort := 20000 + 376851 % 10000
  ctrlPort := 30000 + 376851 % 10000
  uiPort := 10000 + 376851 % 10000
  psize := 512
  bsize := 65536
  fsize := 128 * 1024
  rtime := 250
  nazwa := bytes "Nienazwany Nadajnik"

/-- `params` and the flag `used_mcast`. -/
structure Parsing where
  params : Parameters
  usedMcast : Bool
deriving DecidableEq

/-- `isprint`, in the C locale. -/
def isprint (c : UInt8) : Bool := 32 ≤ c ∧ c ≤ 126

/-- `%x` of the `int` that a `char` is converted to. -/
def hex (c : UInt8) : List UInt8 :=
  (Nat.toDigits 16 (if c < 128 then c.toNat else 2 ^ 32 - 256 + c.toNat)).map
    fun d => UInt8.ofNat d.toNat

/-- The body of the loop (lines 54-99). -/
def Parsing.handle (s : Parsing) : Found Letter → Except Failure Parsing
  | .option .a optarg => do
    let mcastAddr ← strcpy 64 optarg
    return ⟨{ s.params with mcastAddr }, true⟩
  | .option .d optarg => do
    let discoverAddr ← strcpy 64 optarg
    return { s with params := { s.params with discoverAddr } }
  | .option .C optarg => do
    let ctrlPort ← convertPort optarg
    return { s with params := { s.params with ctrlPort } }
  | .option .U optarg => do
    let uiPort ← convertPort optarg
    return { s with params := { s.params with uiPort } }
  | .option .p optarg => do
    let psize ← convertNumber optarg
    return { s with params := { s.params with psize } }
  | .option .b optarg => do
    let bsize ← convertNumber optarg
    return { s with params := { s.params with bsize } }
  | .option .f optarg => do
    let fsize ← convertNumber optarg
    return { s with params := { s.params with fsize } }
  | .option .R optarg => do
    let rtime ← convertNumber optarg
    return { s with params := { s.params with rtime } }
  | .option .n optarg =>
    if optarg.length > 64 then syserr (bytes "Name is too long, max 64 characters")
    else do
      let nazwa ← strcpy 65 optarg
      return { s with params := { s.params with nazwa } }
  | .unknown optopt =>
    if isprint optopt then syserr (bytes "Unknown option `-" ++ optopt :: bytes "'.")
    else syserr (bytes "Unknown option character `\\x" ++ hex optopt ++ bytes "'.")
  | .missing optopt => syserr (bytes "Option -" ++ optopt :: bytes " requires an argument.")

/-- **`parseArgumentsTransmiter`**. -/
def parseArgumentsTransmiter (posix : Bool) (args : List (List UInt8)) :
    Except Failure Parameters := do
  let s ← (getopt posix Letter.ofChar args).foldlM Parsing.handle ⟨defaullParams, false⟩
  if s.usedMcast ≠ true then syserr (bytes "Parameter -a is required")
  else return s.params

/-- `(uint64_t) params.FSIZE / params.PSIZE` (line 200 of `nadajnik.cpp`), with `none` for a division by
zero. -/
def maxCount (params : Parameters) : Option UInt64 :=
  if UInt64.ofInt params.psize = 0 then none
  else some (UInt64.ofInt params.fsize / UInt64.ofInt params.psize)

/-- `(size_t) params.PSIZE`: what `main` asks `read` for (line 231), into `audio_data[params.PSIZE]`. -/
def readSize (params : Parameters) : UInt64 := UInt64.ofInt params.psize

/-- The length of `audio_buffer` in `send_Mcast` (line 99): two numbers of eight bytes, and a packet. -/
def audioBufferSize (params : Parameters) : UInt64 := UInt64.ofInt params.psize + 8 * 2

end SikMimuw.Arguments
