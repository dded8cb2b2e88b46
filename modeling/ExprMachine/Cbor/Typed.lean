import ExprMachine.Cbor.Item
import ExprMachine.Number.Narrow
import ExprMachine.Text.Utf8

/-! Reading items as values of a known type. Null stands for the zero value of every type, tags are
passed over except that a bignum tag makes an integer of a byte string, and a simple value counts
as its number. -/
namespace ExprMachine.Cbor

open Text (bigEndian)

def admissible (number : Nat) (content : Item) : Bool :=
  match number, content with
  | 0, .text _ => true
  | 0, _ => false
  | 1, .unsigned _ | 1, .negative _ | 1, .float _ _ => true
  | 1, _ => false
  | 2, .bytes _ | 3, .bytes _ => true
  | 2, _ | 3, _ => false
  | _, _ => true

def untagged : Item → Option Item
  | .tag number content =>
    if admissible number content then
      match number, content with
      | 2, .bytes pieces =>
        let n := bigEndian pieces.flatten
        if n < 0x1_0000_0000_0000_0000 then some (.unsigned n) else none
      | 3, .bytes pieces =>
        let n := bigEndian pieces.flatten
        if n < 0x8000_0000_0000_0000 then some (.negative n) else none
      | _, _ => untagged content
    else none
  | item => some item

def toUnsigned (bound : Nat) (item : Item) : Option Nat := do
  match ← untagged item with
  | .unsigned n | .simple n => if n < bound then some n else none
  | .null => some 0
  | _ => none

def toSigned (item : Item) : Option Int := do
  match ← untagged item with
  | .unsigned n | .simple n => if n < 0x8000_0000_0000_0000 then some n else none
  | .negative n => if n < 0x8000_0000_0000_0000 then some (-1 - n) else none
  | .null => some 0
  | _ => none

def floatNumber : FloatWidth → Nat → Number
  | .half, pattern => Number.half.widen pattern
  | .single, pattern => Number.single.widen pattern
  | .double, pattern => ⟨pattern.toUInt64⟩

def toNumber (item : Item) : Option Number := do
  match ← untagged item with
  | .unsigned n | .simple n => some (.ofInt n)
  | .negative n => if n < 0x8000_0000_0000_0000 then some (.ofInt (-1 - n)) else none
  | .float width pattern => some (floatNumber width pattern)
  | .null => some .zero
  | _ => none

def toBool (item : Item) : Option Bool := do
  match ← untagged item with
  | .bool b => some b
  | .null => some false
  | _ => none

def validText (pieces : List Bytes) : Option Bytes :=
  if pieces.all Text.isValid then some pieces.flatten else none

def toText (item : Item) : Option Bytes := do
  match ← untagged item with
  | .text pieces => validText pieces
  | .null => some []
  | _ => none

def collect {α β : Type} (f : α → Option β) (items : List α) : Option (List β) :=
  (items.foldl (fun done item =>
    match done with
    | some results => (f item).map (· :: results)
    | none => none) (some [])).map List.reverse

def toList {α : Type} (element : Item → Option α) (item : Item) : Option (List α) := do
  match ← untagged item with
  | .array items => collect element items
  | .null => some []
  | _ => none

inductive Key where
  | int (n : Int)
  | text (s : Bytes)
  deriving DecidableEq, Repr

def toKey : Item → Option Key
  | .unsigned n => some (.int (Int.bmod n 0x1_0000_0000_0000_0000))
  | .negative n => some (.int (Int.bmod (-1 - n) 0x1_0000_0000_0000_0000))
  | .text pieces => (validText pieces).map .text
  | _ => none

abbrev Fields := List (Key × Item)

def toFields (item : Item) : Option Fields := do
  match ← untagged item with
  | .map entries => collect (fun (key, value) => (toKey key).map (·, value)) entries
  | .null => some []
  | _ => none

def field (fields : Fields) (number : Nat) : Item :=
  -- The first field with a number, written as an integer or as text; null if there is none.
  match fields.find? fun (key, _) => key = .int number ∨ key = .text (Text.natText number) with
  | some (_, item) => item
  | none => .null

end ExprMachine.Cbor
