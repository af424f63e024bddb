import SikMimuw.Model.Connection

/-!
# The output buffer of the second server (`ver2/tcpConnection.cc`)

The class has the fields of that of `zad1`, its `write` of a byte is `send` there, and its `flush`
calls `send` of the socket, which takes all bytes. Vectors and strings are written byte by byte, with
a `flush` at the end.
-/

namespace SikMimuw.Ver2

abbrev ConnectionBuffer := Zad1.ConnectionBuffer

namespace ConnectionBuffer

/-- **`write`** of a byte. -/
def writeByte (c : ConnectionBuffer) (byte : UInt8) : ConnectionBuffer := c.sendByte byte

/-- **`write`** of a vector. -/
def writeBytes (c : ConnectionBuffer) (bytes : List UInt8) : ConnectionBuffer :=
  (bytes.foldl writeByte c).flush

/-- **`write`** of a string, whose characters are signed. -/
def writeString (c : ConnectionBuffer) (str : List Int8) : ConnectionBuffer :=
  (str.foldl (fun c byte => writeByte c byte.toUInt8) c).flush

end ConnectionBuffer

/-- A call. -/
inductive Call
  | writeByte (byte : UInt8)
  | writeBytes (bytes : List UInt8)
  | writeString (str : List Int8)
  | flush

/-- The connection after a call. -/
def ConnectionBuffer.call (c : ConnectionBuffer) : Call → ConnectionBuffer
  | .writeByte byte => ConnectionBuffer.writeByte c byte
  | .writeBytes bytes => ConnectionBuffer.writeBytes c bytes
  | .writeString str => ConnectionBuffer.writeString c str
  | .flush => c.flush

/-- The connection after calls in a row. -/
def ConnectionBuffer.calls (c : ConnectionBuffer) (es : List Call) : ConnectionBuffer :=
  es.foldl ConnectionBuffer.call c

/-- The bytes that a call writes. -/
def Call.bytes : Call → List UInt8
  | .writeByte byte => [byte]
  | .writeBytes bytes => bytes
  | .writeString str => str.map Int8.toUInt8
  | .flush => []

end SikMimuw.Ver2
