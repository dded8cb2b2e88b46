import ExprMachine.Text.Bytes

/-! UTF-8 read leniently: a byte string is a sequence of characters and of stray bytes that belong
to no character. Text is valid when no byte is stray. -/
namespace ExprMachine.Text

inductive Glyph where
  | char (c : Char)
  | stray (b : UInt8)
  deriving DecidableEq, Repr

def isContinuation (b : UInt8) : Bool := 128 ≤ b && b < 192

def payload (b : UInt8) : Nat := b.toNat % 64

/-- The character with code point `n`, if `n` is one and is at least `least`, the first code point
that needs as many bytes as were spent on it. -/
def charFrom? (least n : Nat) : Option Char :=
  if least ≤ n ∧ n.isValidChar then some (Char.ofNat n) else none

def leadingChar? : Bytes → Option Char
  | a :: b :: c :: d :: _ =>
    if a < 128 then some (Char.ofNat a.toNat)
    else if a < 192 || !isContinuation b then none
    else if a < 224 then charFrom? 0x80 (a.toNat % 32 * 64 + payload b)
    else if !isContinuation c then none
    else if a < 240 then charFrom? 0x800 (a.toNat % 16 * 4096 + payload b * 64 + payload c)
    else if a < 248 && isContinuation d then
      charFrom? 0x10000 (a.toNat % 8 * 262144 + payload b * 4096 + payload c * 64 + payload d)
    else none
  | [a, b, c] =>
    if a < 128 then some (Char.ofNat a.toNat)
    else if a < 192 || !isContinuation b then none
    else if a < 224 then charFrom? 0x80 (a.toNat % 32 * 64 + payload b)
    else if a < 240 && isContinuation c then
      charFrom? 0x800 (a.toNat % 16 * 4096 + payload b * 64 + payload c)
    else none
  | [a, b] =>
    if a < 128 then some (Char.ofNat a.toNat)
    else if 192 ≤ a && a < 224 && isContinuation b then
      charFrom? 0x80 (a.toNat % 32 * 64 + payload b)
    else none
  | [a] => if a < 128 then some (Char.ofNat a.toNat) else none
  | [] => none

def charWidth (c : Char) : Nat := (String.utf8EncodeChar c).length

def glyphs : Bytes → List Glyph
  | [] => []
  | b :: rest =>
    match leadingChar? (b :: rest) with
    | some c => .char c :: glyphs (rest.drop (charWidth c - 1))
    | none => .stray b :: glyphs rest
termination_by s => s.length
decreasing_by all_goals simp; try omega

def Glyph.isChar : Glyph → Bool
  | .char _ => true
  | .stray _ => false

def Glyph.bytes : Glyph → Bytes
  | .char c => String.utf8EncodeChar c
  | .stray b => [b]

def isValid (s : Bytes) : Bool := (glyphs s).all Glyph.isChar

def Glyph.units16 : Glyph → Nat
  | .char c => if c.toNat < 0x10000 then 1 else 2
  | .stray _ => 1

def units16 (s : Bytes) : Nat := (glyphs s).foldr (·.units16 + ·) 0

def repaired (s : Bytes) : Bytes :=
  (glyphs s).flatMap fun
    | .char c => String.utf8EncodeChar c
    | .stray _ => [0xef, 0xbf, 0xbd]

end ExprMachine.Text
