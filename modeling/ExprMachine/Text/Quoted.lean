import ExprMachine.Text.Printable
import ExprMachine.Text.Utf8

/-! Quoted text: between double quotes, printable characters as they are, the usual control
characters by letter, and everything else by number. -/
namespace ExprMachine.Text

def escapeLetter? (c : Char) : Option Char :=
  match c.toNat with
  | 7 => some 'a'
  | 8 => some 'b'
  | 9 => some 't'
  | 10 => some 'n'
  | 11 => some 'v'
  | 12 => some 'f'
  | 13 => some 'r'
  | 34 => some '"'
  | 92 => some '\\'
  | _ => none

def quoteChar (c : Char) : Bytes :=
  match escapeLetter? c with
  | some letter => [byte '\\', byte letter]
  | none =>
    if isPrintable c then String.utf8EncodeChar c
    else if c.toNat < 128 then utf8 "\\x" ++ hexText 2 c.toNat
    else if c.toNat < 0x10000 then utf8 "\\u" ++ hexText 4 c.toNat
    else utf8 "\\U" ++ hexText 8 c.toNat

def quoteGlyph : Glyph → Bytes
  | .char c => quoteChar c
  | .stray b => utf8 "\\x" ++ hexText 2 b.toNat

def quote (s : Bytes) : Bytes := byte '"' :: (glyphs s).flatMap quoteGlyph ++ [byte '"']

end ExprMachine.Text
