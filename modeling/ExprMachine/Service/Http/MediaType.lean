import ExprMachine.Text.Blank
import ExprMachine.Text.Fold
import ExprMachine.Text.Percent

/-! Content types: the name of a type and its parameters. A parameter may be spread over several
numbered pieces, and a piece whose name ends in a star is percent-encoded; the first piece then says
in which character set. -/
namespace ExprMachine.Service.Http

open Text (utf8 byte)

structure MediaType where
  name : Bytes
  parameters : List (Bytes × Bytes)
  deriving DecidableEq, Repr

namespace MediaType

def isSpecial (b : UInt8) : Bool := (utf8 "()<>@,;:\\\"/[]?=").contains b

def isTokenByte (b : UInt8) : Bool := 32 < b && b < 127 && !isSpecial b

def isToken (s : Bytes) : Bool := !s.isEmpty && s.all isTokenByte

def star : UInt8 := byte '*'

/-! Parameters as they are written. -/

def readQuoted? : Bytes → Option (Bytes × Bytes)
  -- A backslash before a special sign is dropped, and one before anything else is text.
  | [] => none
  | [b] => if b = byte '"' then some ([], []) else none
  | b :: c :: rest =>
    if b = byte '"' then some ([], c :: rest)
    else if b = 13 ∨ b = 10 then none
    else if b = byte '\\' ∧ isSpecial c then
      (readQuoted? rest).map fun (value, rest) => (c :: value, rest)
    else (readQuoted? (c :: rest)).map fun (value, rest) => (b :: value, rest)

def readValue? : Bytes → Option (Bytes × Bytes)
  | [] => none
  | b :: rest =>
    if b = byte '"' then readQuoted? rest
    else
      let value := (b :: rest).takeWhile isTokenByte
      if value.isEmpty then none else some (value, (b :: rest).dropWhile isTokenByte)

def afterSign? (sign : Char) : Bytes → Option Bytes
  | [] => none
  | b :: rest => if b = byte sign then some (Text.trimLeft rest) else none

def readParameter? (s : Bytes) : Option ((Bytes × Bytes) × Bytes) := do
  let s ← afterSign? ';' s
  let name := s.takeWhile isTokenByte
  if name.isEmpty then none
  else
    let s ← afterSign? '=' (Text.trimLeft (s.dropWhile isTokenByte))
    let (value, rest) ← readValue? s
    some ((name.map Text.lower, value), rest)

def readParameters? (s : Bytes) : Option (List (Bytes × Bytes)) :=
  match Text.trimLeft s with
  | [] => some []
  | b :: tail =>
    match readParameter? (b :: tail) with
    | none => if Text.trim (b :: tail) = [byte ';'] then some [] else none
    | some (p, rest) =>
      if _h : rest.length < s.length then (readParameters? rest).map (p :: ·) else none
termination_by s.length

/-! Parameters as they are meant. -/

def valueOf? (written : List (Bytes × Bytes)) (name : Bytes) : Option Bytes :=
  (written.find? fun p => p.1 == name).map Prod.snd

def isConsistent (written : List (Bytes × Bytes)) : Bool :=
  written.all fun p => valueOf? written p.1 == some p.2

def decodeExtended? (s : Bytes) : Option Bytes :=
  -- The character sets known are ASCII and UTF-8, and the language does not matter.
  match Text.splitAt (byte '\'') s with
  | charset :: _ :: first :: rest =>
    let charset := charset.map Text.lower
    if charset = utf8 "us-ascii" ∨ charset = utf8 "utf-8" then
      Text.percentDecoded? (Text.join [byte '\''] (first :: rest))
    else none
  | _ => none

def pieces (written : List (Bytes × Bytes)) (name : Bytes) : (count n : Nat) → List Bytes
  | 0, _ => []
  | count + 1, n =>
    let key := name ++ star :: Text.natText n
    match valueOf? written key, valueOf? written (key ++ [star]) with
    | some plain, _ => plain :: pieces written name count (n + 1)
    | none, some coded =>
      let piece := if n = 0 then decodeExtended? coded else Text.percentDecoded? coded
      piece.getD [] :: pieces written name count (n + 1)
    | none, none => []

def extended? (written : List (Bytes × Bytes)) (name : Bytes) : Option Bytes :=
  match valueOf? written (name ++ [star]) with
  | some coded => decodeExtended? coded
  | none =>
    let parts := pieces written name written.length 0
    if parts.isEmpty then none else some parts.flatten

def setParameter (ps : List (Bytes × Bytes)) (name value : Bytes) : List (Bytes × Bytes) :=
  ps.filter (fun p => p.1 != name) ++ [(name, value)]

def resolve (written : List (Bytes × Bytes)) : List (Bytes × Bytes) :=
  written.foldl
    (fun ps p =>
      let name := p.1.takeWhile (· != star)
      let value := if name = p.1 then some p.2 else none
      match extended? written name, value with
      | some value, _ => setParameter ps name value
      | none, some value => setParameter ps name value
      | none, none => ps)
    []

/-! Whole types. -/

def isName (s : Bytes) : Bool :=
  match Text.splitAt (byte '/') s with
  | [name] => isToken name
  | [kind, subtype] => isToken kind && isToken subtype
  | _ => false

def parse? (s : Bytes) : Option MediaType := do
  let isNamePart := fun b : UInt8 => b != byte ';'
  let name ← Text.lowerWord? (Text.trim (s.takeWhile isNamePart))
  let written ← readParameters? (s.dropWhile isNamePart)
  if isName name ∧ isConsistent written then some ⟨name, resolve written⟩ else none

end MediaType
end ExprMachine.Service.Http
