import ExprMachine.Number.Rounding

/-! The narrower binary formats of 16 and 32 bits: widening them to numbers, and narrowing the
numbers that keep their value. -/
namespace ExprMachine.Number

structure Format where
  exponentBits : Nat
  fractionBits : Nat
  deriving DecidableEq, Repr

def half : Format := ⟨5, 10⟩

def single : Format := ⟨8, 23⟩

namespace Format

def bias (f : Format) : Nat := twoTo (f.exponentBits - 1) - 1

def fields (f : Format) (pattern : Nat) : Bool × Nat × Nat :=
  (pattern / twoTo (f.exponentBits + f.fractionBits) % 2 == 1,
    pattern / twoTo f.fractionBits % twoTo f.exponentBits, pattern % twoTo f.fractionBits)

def widen (f : Format) (pattern : Nat) : Number :=
  let (negative, exponent, fraction) := f.fields pattern
  let magnitude : Number :=
    if exponent = twoTo f.exponentBits - 1 then
      if fraction = 0 then infinity else canonicalNaN
    else
      let coefficient := if exponent = 0 then fraction else twoTo f.fractionBits + fraction
      let power : Int := (max exponent 1 : Int) - f.bias - f.fractionBits
      (ofRatio? (coefficient * twoTo power.toNat) (twoTo (-power).toNat)).getD infinity
  magnitude.withSign negative

def candidate (f : Format) (x : Number) : Nat :=
  let sign := if x.isNegative then twoTo (f.exponentBits + f.fractionBits) else 0
  let exponent : Int := (x.exponentField : Int) - 1023 + f.bias
  let drop := 52 - f.fractionBits
  let magnitude :=
    if x.isInfinite then (twoTo f.exponentBits - 1) * twoTo f.fractionBits
    else if 0 < exponent then exponent.toNat * twoTo f.fractionBits + x.fraction / twoTo drop
    else x.coefficient / twoTo (drop + 1 + (-exponent).toNat)
  sign + magnitude

def narrow? (f : Format) (x : Number) : Option Nat :=
  let pattern := f.candidate x
  if pattern < twoTo (1 + f.exponentBits + f.fractionBits) ∧ f.widen pattern = x then some pattern
  else none

end Format
end ExprMachine.Number
