import ExprMachine.Text.Fold

/-! JSON values and how they are written. A number is kept as it is written and an object as its
members in order, so that a reader of messages can decide what to make of them. -/
namespace ExprMachine

open Text (utf8 byte hexText isDigit digitsValue)

inductive Json where
  | null
  | bool (b : Bool)
  | number (literal : Bytes)
  | string (s : Bytes)
  | array (items : List Json)
  | object (members : List (Bytes × Json))
  deriving Inhabited

namespace Json

def controlLetter? (b : UInt8) : Option Char :=
  if b = 8 then some 'b'
  else if b = 9 then some 't'
  else if b = 10 then some 'n'
  else if b = 12 then some 'f'
  else if b = 13 then some 'r'
  else none

def escapeByte (b : UInt8) : Bytes :=
  if b = byte '"' ∨ b = byte '\\' then [byte '\\', b]
  else
    match controlLetter? b with
    | some letter => [byte '\\', byte letter]
    | none => if b < 32 then utf8 "\\u" ++ hexText 4 b.toNat else [b]

def renderString (s : Bytes) : Bytes := byte '"' :: s.flatMap escapeByte ++ [byte '"']

mutual

def render : Json → Bytes
  | null => utf8 "null"
  | bool b => utf8 (if b then "true" else "false")
  | number literal => literal
  | string s => renderString s
  | array items => byte '[' :: Text.join [byte ','] (renderItems items) ++ [byte ']']
  | object members => byte '\x7b' :: Text.join [byte ','] (renderMembers members) ++ [byte '\x7d']

def renderItems : List Json → List Bytes
  | [] => []
  | item :: rest => render item :: renderItems rest

def renderMembers : List (Bytes × Json) → List Bytes
  | [] => []
  | (name, value) :: rest => (renderString name ++ byte ':' :: render value) :: renderMembers rest

end

def ofNat (n : Nat) : Json := number (Text.natText n)

def ofText (s : Bytes) : Json := string (Text.repaired s)

def ofFields (fields : List (String × Json)) : Json :=
  object (fields.map fun (name, value) => (utf8 name, value))

/-! Reading a value as a message of known shape: case does not matter in names, unknown members are
passed over, and `null` stands for what a missing member means. -/

def member (name : String) (members : List (Bytes × Json)) : Json :=
  -- The last of several members of the name counts.
  ((members.filter fun m => Text.spells (utf8 name) m.1).getLast?.map Prod.snd).getD .null

def members? : Json → Option (List (Bytes × Json))
  | null => some []
  | object members => some members
  | _ => none

def items? : Json → Option (List Json)
  | null => some []
  | array items => some items
  | _ => none

def text? : Json → Option Bytes
  | null => some []
  | string s => some s
  | _ => none

def integerValue? : Bytes → Option Int
  | [] => none
  | b :: rest =>
    if b = byte '-' then
      if rest.isEmpty ∨ ¬ rest.all isDigit then none else some (-(digitsValue rest : Int))
    else if (b :: rest).all isDigit then some (digitsValue (b :: rest))
    else none

def int32? : Json → Option Int
  | null => some 0
  | number literal =>
    (integerValue? literal).filter fun n => -(0x8000_0000 : Int) ≤ n ∧ n < 0x8000_0000
  | _ => none

def nat32? : Json → Option Nat
  | null => some 0
  | number literal =>
    if literal.isEmpty ∨ ¬ literal.all isDigit then none
    else if digitsValue literal < 0x1_0000_0000 then some (digitsValue literal)
    else none
  | _ => none

end Json
end ExprMachine
