import ExprMachine.Text.Blank
import ExprMachine.Text.Printable

/-! Characters of the general category Other: controls, format characters, those for private use
and those that are not assigned. -/
namespace ExprMachine.Text

def isSeparatorChar (c : Char) : Bool := isBlankChar c && (c == ' ' || 0xa0 ≤ c.toNat)

-- Every character is printable, a separator or of this category.
def isControlChar (c : Char) : Bool := !isPrintable c && !isSeparatorChar c

def Glyph.isControl : Glyph → Bool
  | .char c => isControlChar c
  | .stray _ => false

def hasControl (s : Bytes) : Bool := (glyphs s).any Glyph.isControl

end ExprMachine.Text
