import ExprMachine.Text.Bytes

/-! Messages in envelopes: a byte of flags, the length of the message in four bytes, and the message.
A body with one message in an envelope may go on with an envelope of trailers where those cannot be
sent apart from the body. -/
namespace ExprMachine.Service.Http

open Text (utf8 byte newline bigEndian bigEndianBytes)

structure Envelope where
  flags : UInt8
  payload : Bytes
  deriving DecidableEq, Repr

namespace Envelope

def compressed : UInt8 := 1

def trailers : UInt8 := 128

def isSet (e : Envelope) (flag : UInt8) : Bool := e.flags &&& flag == flag

def encode (e : Envelope) : Bytes := e.flags :: bigEndianBytes 4 e.payload.length ++ e.payload

def read? : Bytes → Option (Envelope × Bytes)
  | flags :: a :: b :: c :: d :: rest =>
    let length := bigEndian [a, b, c, d]
    if length ≤ rest.length then some (⟨flags, rest.take length⟩, rest.drop length) else none
  | _ => none

def isNameByte (b : UInt8) : Bool := Text.isWordByte b || (utf8 "!#$%&'*+-.^\x60|~ ").contains b

def isHeaderLine (line : Bytes) : Bool :=
  let name := line.takeWhile (· != byte ':')
  name.length < line.length && !name.isEmpty && name.all isNameByte

def isContinued (line : Bytes) : Bool := line.head? == some 32 || line.head? == some 9

def dropReturn (line : Bytes) : Bytes := if line.getLast? = some 13 then line.dropLast else line

def isHeaders (s : Bytes) : Bool :=
  let lines := ((Text.splitAt newline s).map dropReturn).takeWhile (!·.isEmpty)
  !(lines.head?.any isContinued) && lines.all fun line => isContinued line || isHeaderLine line

def isClosing (e : Envelope) : Bool :=
  e.isSet trailers && !e.isSet compressed && isHeaders e.payload

def message? (withTrailers : Bool) (body : Bytes) : Option Bytes := do
  let (first, rest) ← read? body
  if first.flags ≠ 0 then none
  else if rest.isEmpty then some first.payload
  else
    let (second, rest) ← read? rest
    if withTrailers ∧ second.isClosing ∧ rest.isEmpty then some first.payload else none

end Envelope
end ExprMachine.Service.Http
