import ExprMachine.Path
import ExprMachine.Text.Percent

/-! What a request is about: the server as a whole, or the resource at a path, with a query. Paths
stay percent-encoded, so that a slash that was encoded does not separate names. -/
namespace ExprMachine.Service.Http

open Text (utf8 byte)

inductive Target where
  | server
  | resource (path query : Bytes)
  deriving DecidableEq, Repr

namespace Target

def isPlain (b : UInt8) : Bool := Text.isWordByte b || (utf8 "-.~$&+,/:;=@").contains b

def isAdmitted (b : UInt8) : Bool := isPlain b || (utf8 "!'()*[]%").contains b

/-- A path as it is routed: as written if it holds admitted bytes only, and otherwise written anew
from what it means. -/
def escaped? (path : Bytes) : Option Bytes := do
  let meant ← Text.percentDecoded? path
  some (if path.all isAdmitted then path else Text.percentEncoded isPlain meant)

def isSchemeByte (b : UInt8) : Bool :=
  Text.isLower b || Text.isUpper b || Text.isDigit b || (utf8 "+-.").contains b

def afterScheme? (address : Bytes) : Option Bytes :=
  match address.head?, address.dropWhile isSchemeByte with
  | some first, colon :: rest =>
    if (Text.isLower first || Text.isUpper first) ∧ colon = byte ':' then some rest else none
  | _, _ => none

def pathOfAddress (address : Bytes) : Bytes :=
  match Text.dropHead? (utf8 "//") address with
  | some afterSlashes => afterSlashes.dropWhile (· != Path.slash)
  | none => if Path.isAbsolute address then address else []

def parse? (method target : Bytes) : Option Target :=
  -- The target is an asterisk for the server, or a path, or an address with its scheme; only a
  -- request to connect names a host without a scheme.
  if target = utf8 "*" then some .server
  else if !target.all (fun b => 32 < b && b != 127) then none
  else
    let address := target.takeWhile (· != byte '?')
    let path? :=
      if Path.isAbsolute address then some address
      else if method = utf8 "CONNECT" then some (address.dropWhile (· != Path.slash))
      else (afterScheme? address).map pathOfAddress
    (path?.bind escaped?).map fun path => .resource path (target.drop (address.length + 1))

def cleanPath (path : Bytes) : Bytes :=
  let cleaned := Path.clean (Path.slash :: path)
  if path.getLast? = some Path.slash ∧ cleaned ≠ [Path.slash] then cleaned ++ [Path.slash]
  else cleaned

end Target
end ExprMachine.Service.Http
