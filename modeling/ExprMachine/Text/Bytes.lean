/-! Byte strings. Source text, string values and everything the programs print are sequences of
bytes, which need not be well-formed UTF-8; offsets and lengths count bytes. -/
namespace ExprMachine

abbrev Bytes := List UInt8

namespace Text

def utf8 (s : String) : Bytes := s.toList.flatMap String.utf8EncodeChar

def byte (c : Char) : UInt8 := c.val.toUInt8

def newline : UInt8 := 10

def isDigit (b : UInt8) : Bool := 48 ≤ b && b ≤ 57

def isUpper (b : UInt8) : Bool := 65 ≤ b && b ≤ 90

def isLower (b : UInt8) : Bool := 97 ≤ b && b ≤ 122

def isLetter (b : UInt8) : Bool := isLower b || isUpper b || b == 95

def isWordByte (b : UInt8) : Bool := isLetter b || isDigit b

def lower (b : UInt8) : UInt8 := if isUpper b then b + 32 else b

def digitByte (n : Nat) : UInt8 := (48 + n).toUInt8

def natText (n : Nat) : Bytes :=
  if n < 10 then [digitByte n] else natText (n / 10) ++ [digitByte (n % 10)]
termination_by n

def intText : Int → Bytes
  | .ofNat n => natText n
  | .negSucc n => byte '-' :: natText (n + 1)

def digitsValue (s : Bytes) : Nat := s.foldl (fun n b => n * 10 + (b.toNat - 48)) 0

def padLeft (width : Nat) (fill : UInt8) (s : Bytes) : Bytes :=
  List.replicate (width - s.length) fill ++ s

def padRight (width : Nat) (fill : UInt8) (s : Bytes) : Bytes :=
  s ++ List.replicate (width - s.length) fill

def hexDigit (n : Nat) : UInt8 := if n < 10 then digitByte n else (87 + n).toUInt8

def hexDigitUpper (n : Nat) : UInt8 := if n < 10 then digitByte n else (55 + n).toUInt8

def hexText : (width n : Nat) → Bytes
  | 0, _ => []
  | width + 1, n => hexText width (n / 16) ++ [hexDigit (n % 16)]

def hexByteUpper (b : UInt8) : Bytes := [hexDigitUpper (b.toNat / 16), hexDigitUpper (b.toNat % 16)]

def hexOf (s : Bytes) : Bytes := s.flatMap fun b => [hexDigit (b.toNat / 16), hexDigit (b.toNat % 16)]

def hexValue? (b : UInt8) : Option Nat :=
  if isDigit b then some (b.toNat - 48)
  else if 97 ≤ b && b ≤ 102 then some (b.toNat - 87)
  else if 65 ≤ b && b ≤ 70 then some (b.toNat - 55)
  else none

def bigEndian (s : Bytes) : Nat := s.foldl (fun n b => n * 256 + b.toNat) 0

def bigEndianBytes : (width n : Nat) → Bytes
  | 0, _ => []
  | width + 1, n => bigEndianBytes width (n / 256) ++ [n.toUInt8]

def join (separator : Bytes) : List Bytes → Bytes
  | [] => []
  | [part] => part
  | part :: rest => part ++ separator ++ join separator rest

def splitAt (separator : UInt8) : Bytes → List Bytes
  | [] => [[]]
  | b :: rest =>
    match splitAt separator rest with
    | [] => [[]]
    | part :: parts => if b = separator then [] :: part :: parts else (b :: part) :: parts

theorem length_dropWhile_le (p : UInt8 → Bool) (s : Bytes) : (s.dropWhile p).length ≤ s.length :=
  (List.dropWhile_sublist p).length_le

def newlines (s : Bytes) : Nat := s.count newline

def dropHead? : (head text : Bytes) → Option Bytes
  | [], text => some text
  | _ :: _, [] => none
  | h :: head, b :: text => if h = b then dropHead? head text else none

def contains (part : Bytes) : Bytes → Bool
  | [] => part.isEmpty
  | b :: rest => part.isPrefixOf (b :: rest) || contains part rest

end Text
end ExprMachine
