import ExprMachine.Text.Utf8

/-! Comparing names without regard to case, either by folding both or by their lower case. The names
compared with are ASCII. The characters outside ASCII that fold to an ASCII letter are two, the long
s and the Kelvin sign, and those that have one as their lower case are the dotted capital I and the
Kelvin sign. -/
namespace ExprMachine.Text

def foldChar? (c : Char) : Option UInt8 :=
  if c.toNat < 128 then some (lower c.toNat.toUInt8)
  else if c.toNat = 0x17f then some (byte 's')
  else if c.toNat = 0x212a then some (byte 'k')
  else none

def fold? (s : Bytes) : Option Bytes :=
  (glyphs s).mapM fun
    | .char c => foldChar? c
    | .stray _ => none

def spells (name s : Bytes) : Bool := fold? s == some (name.map lower)

def lowerChar? (c : Char) : Option UInt8 :=
  if c.toNat < 128 then some (lower c.toNat.toUInt8)
  else if c.toNat = 0x130 then some (byte 'i')
  else if c.toNat = 0x212a then some (byte 'k')
  else none

def lowerWord? (s : Bytes) : Option Bytes :=
  (glyphs s).mapM fun
    | .char c => lowerChar? c
    | .stray _ => none

end ExprMachine.Text
