import ExprMachine.Number.Decimal

/-! Values: nil, booleans, numbers and strings. A value also has a one-byte tag; tags above the four
defined ones are kept, so that data from newer programs can be shown. -/
namespace ExprMachine

open Text (utf8 natText)

inductive Kind where
  | nil
  | bool
  | number
  | string
  | undefined (tag : UInt8) (above : 3 < tag)
  deriving DecidableEq, Repr

namespace Kind

def tag : Kind → UInt8
  | nil => 0
  | bool => 1
  | number => 2
  | string => 3
  | undefined tag _ => tag

def ofTag (tag : UInt8) : Kind :=
  if above : 3 < tag then undefined tag above
  else if tag = 0 then nil
  else if tag = 1 then bool
  else if tag = 2 then number
  else string

def name : Kind → Bytes
  | nil => utf8 "nil"
  | bool => utf8 "bool"
  | number => utf8 "number"
  | string => utf8 "string"
  | undefined tag _ => utf8 "Kind(" ++ natText tag.toNat ++ utf8 ")"

end Kind

inductive Value where
  | nil
  | bool (b : Bool)
  | number (x : Number)
  | string (s : Bytes)
  | undefined (tag : UInt8) (above : 3 < tag)
  deriving DecidableEq, Repr

namespace Value

def kind : Value → Kind
  | nil => .nil
  | bool _ => .bool
  | number _ => .number
  | string _ => .string
  | undefined tag above => .undefined tag above

def ofKind : Kind → Value
  | .nil => nil
  | .bool => bool false
  | .number => number .zero
  | .string => string []
  | .undefined tag above => undefined tag above

def asNumber : Value → Number
  | number x => x
  | _ => .zero

def asBool : Value → Bool
  | bool b => b
  | _ => false

def asString : Value → Bytes
  | string s => s
  | _ => []

def truthy : Value → Bool
  | nil => false
  | bool b => b
  | _ => true

def equal : Value → Value → Bool
  -- Values of different kinds are never equal, nor are values of an undefined kind.
  | nil, nil => true
  | bool a, bool b => a == b
  | number x, number y => x.equal y
  | string s, string t => s == t
  | _, _ => false

def text : Value → Bytes
  | nil => utf8 "nil"
  | bool true => utf8 "true"
  | bool false => utf8 "false"
  | number x => x.text
  | string s => s
  | v@(undefined _ _) => utf8 "<" ++ v.kind.name ++ utf8 ">"

end Value
end ExprMachine
