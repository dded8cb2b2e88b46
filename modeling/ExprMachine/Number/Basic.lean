import ExprMachine.Text.Bytes

/-! Numbers are binary64 values, held as their 64 bits: a sign, an exponent field of 11 bits and a
fraction of 52. A finite number other than zero is a coefficient times a power of two. -/
namespace ExprMachine

structure Number where
  bits : UInt64
  deriving DecidableEq, Repr

namespace Number

abbrev twoTo (n : Nat) : Nat := Nat.pow 2 n

abbrev tenTo (n : Nat) : Nat := Nat.pow 10 n

abbrev signUnit : Nat := 0x8000_0000_0000_0000

abbrev exponentUnit : Nat := 0x10_0000_0000_0000

def zero : Number := ⟨0⟩

def infinity : Number := ⟨0x7ff0000000000000⟩

def canonicalNaN : Number := ⟨0x7ff8000000000000⟩

def isNegative (x : Number) : Bool := signUnit ≤ x.bits.toNat

def magnitude (x : Number) : Nat := x.bits.toNat % signUnit

def exponentField (x : Number) : Nat := x.magnitude / exponentUnit

def fraction (x : Number) : Nat := x.magnitude % exponentUnit

def isNaN (x : Number) : Bool := x.exponentField == 2047 && x.fraction != 0

def isInfinite (x : Number) : Bool := x.exponentField == 2047 && x.fraction == 0

def isZero (x : Number) : Bool := x.magnitude == 0

def coefficient (x : Number) : Nat :=
  if x.exponentField = 0 then x.fraction else exponentUnit + x.fraction

def power (x : Number) : Int :=
  if x.exponentField = 0 then -1074 else (x.exponentField : Int) - 1075

def withSign (negative : Bool) (x : Number) : Number :=
  ⟨(x.magnitude + if negative then signUnit else 0).toUInt64⟩

def normalized (x : Number) : Number := if x.isNaN then canonicalNaN else x

def toFloat (x : Number) : Float := Float.ofBits x.bits

def ofFloat (f : Float) : Number := ⟨f.toBits⟩

def neg (a : Number) : Number := ofFloat (-a.toFloat)

def add (a b : Number) : Number := ofFloat (a.toFloat + b.toFloat)

def sub (a b : Number) : Number := ofFloat (a.toFloat - b.toFloat)

def mul (a b : Number) : Number := ofFloat (a.toFloat * b.toFloat)

def div (a b : Number) : Number := ofFloat (a.toFloat / b.toFloat)

def less (a b : Number) : Bool := a.toFloat < b.toFloat

def equal (a b : Number) : Bool := a.toFloat == b.toFloat

end Number
end ExprMachine
