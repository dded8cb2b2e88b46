import ExprMachine.Text.Utf8

/-! White space in the sense of the Unicode property, and trimming by it. -/
namespace ExprMachine.Text

def isBlankChar (c : Char) : Bool :=
  let n := c.toNat
  (9 ≤ n && n ≤ 13) || n == 0x20 || n == 0x85 || n == 0xa0 || n == 0x1680 ||
    (0x2000 ≤ n && n ≤ 0x200a) || n == 0x2028 || n == 0x2029 || n == 0x202f || n == 0x205f ||
    n == 0x3000

def Glyph.isBlank : Glyph → Bool
  | .char c => isBlankChar c
  | .stray _ => false

def trimLeft (s : Bytes) : Bytes := ((glyphs s).dropWhile Glyph.isBlank).flatMap Glyph.bytes

def trim (s : Bytes) : Bytes :=
  (((glyphs s).dropWhile Glyph.isBlank).reverse.dropWhile Glyph.isBlank).reverse.flatMap Glyph.bytes

end ExprMachine.Text
