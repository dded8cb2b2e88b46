import ExprMachine.Number.Rounding

/-! Number literals: digits, optionally followed by a point and more digits. -/
namespace ExprMachine.Number

open Text (isDigit digitsValue)

def ofLiteral? (s : Bytes) : Option Number :=
  let whole := s.takeWhile isDigit
  let places := (s.dropWhile isDigit).drop 1
  ofRatio? (digitsValue (whole ++ places)) (tenTo places.length)

end ExprMachine.Number
