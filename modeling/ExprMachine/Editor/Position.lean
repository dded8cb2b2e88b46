import ExprMachine.Text.Utf8

/-! Places in a document as editors count them: lines from zero, and columns in UTF-16 code units. -/
namespace ExprMachine.Editor

open Text (newline newlines units16 splitAt isWordByte)

structure Position where
  line : Nat
  character : Nat
  deriving DecidableEq, Repr

structure Range where
  start : Position
  stop : Position
  deriving DecidableEq, Repr

def lastLine (s : Bytes) : Bytes := (s.reverse.takeWhile (· != newline)).reverse

-- Both numbers are sent as words of 32 bits.
def positionAt (text : Bytes) (offset : Nat) : Position :=
  let before := text.take offset
  ⟨newlines before % 0x1_0000_0000, units16 (lastLine before) % 0x1_0000_0000⟩

def positionAt? (text : Bytes) (offset : Int) : Option Position :=
  if offset < 0 then none else some (positionAt text offset.toNat)

def rangeEnd (text : Bytes) (offset : Nat) (length : Int) : Int :=
  let stop := Int.bmod (offset + length) 0x1_0000_0000_0000_0000
  let rest := text.drop offset
  let line := (rest.takeWhile (· != newline)).length
  let stop := if line < rest.length ∧ (offset + line : Int) < stop then (offset + line : Int) else stop
  min stop text.length

def rangeOf? (text : Bytes) (offset length : Int) : Option Range :=
  -- The range is cut off at the end of its first line; there is none if either end lies before
  -- the text.
  if offset < 0 then none
  else
    let first := min offset.toNat text.length
    (positionAt? text (rangeEnd text first length)).map (⟨positionAt text first, ·⟩)

/-- The fragment of a word that ends at a place. The column is taken as a number of bytes, and one
past the end of its line as that end. -/
def wordBefore (text : Bytes) (place : Position) : Bytes :=
  match (splitAt newline text)[place.line]? with
  | none => []
  | some line => ((line.take place.character).reverse.takeWhile isWordByte).reverse

end ExprMachine.Editor
