import ExprMachine.Text.Bytes

/-! Addresses to listen on: a host, perhaps in square brackets, and after the last colon a port. -/
namespace ExprMachine.Service

open Text (utf8 byte)

inductive AddressFault where
  | missingPort (address : Bytes)
  | tooManyColons (address : Bytes)
  | unclosedBracket (address : Bytes)
  | strayBracket (bracket : Char) (address : Bytes)
  | invalidPort (port : Bytes)
  | unknownPort (port : Bytes)
  deriving DecidableEq, Repr

namespace AddressFault

def about (address : Bytes) (reason : String) : Bytes :=
  (if address.isEmpty then [] else utf8 "address " ++ address ++ utf8 ": ") ++ utf8 reason

def reason : AddressFault → Bytes
  | missingPort a => about a "missing port in address"
  | tooManyColons a => about a "too many colons in address"
  | unclosedBracket a => about a "missing ']' in address"
  | strayBracket b a => about a ("unexpected '" ++ b.toString ++ "' in address")
  | invalidPort p => about p "invalid port"
  | unknownPort p => utf8 "lookup tcp/" ++ p ++ utf8 ": unknown port"

def message (f : AddressFault) : Bytes := utf8 "listen tcp: " ++ f.reason

end AddressFault

def colon : UInt8 := byte ':'

def afterLastColon? (s : Bytes) : Option Bytes :=
  if s.contains colon then some (s.reverse.takeWhile (· != colon)).reverse else none

def noStrayBracket (address within : Bytes) (bracket : Char) : Except AddressFault Unit :=
  if within.contains (byte bracket) then .error (.strayBracket bracket address) else .ok ()

def portOf (address : Bytes) : Except AddressFault Bytes :=
  match afterLastColon? address with
  | none => .error (.missingPort address)
  | some port =>
    match address with
    | first :: inner =>
      if first = byte '[' then
        match inner.dropWhile (· != byte ']') with
        | [] => .error (.unclosedBracket address)
        | _ :: after =>
          if after = colon :: port then do
            noStrayBracket address inner '['
            noStrayBracket address after ']'
            .ok port
          else if after.head? = some colon then .error (.tooManyColons address)
          else .error (.missingPort address)
      else if 1 < address.count colon then .error (.tooManyColons address)
      else do
        noStrayBracket address address '['
        noStrayBracket address address ']'
        .ok port
    | [] => .error (.missingPort address)

/-- A run of digits as a number of 32 bits. It stops at the first digit that has no room, and then
the number is greater than any port; none if something else than a digit comes first. -/
def portDigits? : (sofar : UInt32) → Bytes → Option UInt32
  | sofar, [] => some sofar
  | sofar, b :: rest =>
    if !Text.isDigit b then none
    else if 0x4000_0000 ≤ sofar then some 0xffff_ffff
    else
      let next := sofar * 10 + (b - 48).toUInt32
      if next < sofar * 10 then some 0xffff_ffff else portDigits? next rest

def portFault? (port : Bytes) : Option AddressFault :=
  -- A port without a number is looked up by name, and no name is known.
  let negative := port.head? == some (byte '-')
  match portDigits? 0 (if negative || port.head? == some (byte '+') then port.drop 1 else port) with
  | none => some (.unknownPort port)
  | some n => if 65535 < n || negative && n != 0 then some (.invalidPort port) else none

def addressFault? (address : Bytes) : Option AddressFault :=
  match portOf address with
  | .error f => some f
  | .ok port => portFault? port

end ExprMachine.Service
