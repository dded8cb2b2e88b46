import ExprMachine.Number.Basic

/-! Decimal text of numbers: the fewest digits that read back as the same number, the nearest such
decimal if there are several, written plainly from 0.0001 up to 999999.9 and with an exponent
elsewhere. -/
namespace ExprMachine.Number

open Text (byte utf8 digitByte natText padLeft)

structure Scaled where
  n : Nat
  tens : Int
  deriving DecidableEq, Repr

/-- The exact comparison of decimals `n * 10 ^ tens` with a number `m * 2 ^ q`: quarters of the
number's last place are compared as `n * left` with `quarters * right`. -/
structure Grid where
  left : Nat
  right : Nat

def grid (q tens : Int) : Grid :=
  ⟨4 * tenTo tens.toNat * twoTo (-q).toNat, twoTo q.toNat * tenTo (-tens).toNat⟩

def leadingPower (m : Nat) (q : Int) : Int :=
  let guess := Int.fdiv (((m.log2 : Int) + q) * 30103) 100000
  let g := grid q (guess + 1)
  if g.left ≤ 4 * m * g.right then guess + 1 else guess

def quartersBelow (x : Number) : Nat := if x.fraction = 0 ∧ 1 < x.exponentField then 1 else 2

def readsBack (x : Number) (g : Grid) (n : Nat) : Bool :=
  -- The ends of the interval belong to the even coefficients.
  let low := (4 * x.coefficient - quartersBelow x) * g.right
  let high := (4 * x.coefficient + 2) * g.right
  if x.coefficient % 2 = 0 then low ≤ n * g.left && n * g.left ≤ high
  else low < n * g.left && n * g.left < high

def nearer (x : Number) (g : Grid) (n : Nat) : Nat :=
  let twice := 8 * x.coefficient * g.right
  let middle := (2 * n + 1) * g.left
  if twice < middle then n else if middle < twice then n + 1 else n + n % 2

def withDigits? (x : Number) (digits : Nat) : Option Scaled :=
  let tens := leadingPower x.coefficient x.power - digits + 1
  let g := grid x.power tens
  let n := 4 * x.coefficient * g.right / g.left
  match readsBack x g n, readsBack x g (n + 1) with
  | true, true => some ⟨nearer x g n, tens⟩
  | true, false => some ⟨n, tens⟩
  | false, true => some ⟨n + 1, tens⟩
  | false, false => none

def shortest (x : Number) : Scaled :=
  ((List.range 17).findSome? fun i => withDigits? x (i + 1)).getD ⟨0, 0⟩

def significant (s : Scaled) : Bytes :=
  (((natText s.n).reverse.dropWhile (· == byte '0'))).reverse

def plain (digits : Bytes) (power : Int) : Bytes :=
  if power < 0 then
    utf8 "0." ++ List.replicate (-power - 1).toNat (byte '0') ++ digits
  else
    let whole := (power + 1).toNat
    if digits.length ≤ whole then digits ++ List.replicate (whole - digits.length) (byte '0')
    else digits.take whole ++ byte '.' :: digits.drop whole

def scientific (digits : Bytes) (power : Int) : Bytes :=
  let tail := digits.drop 1
  digits.take 1 ++ (if tail.isEmpty then [] else byte '.' :: tail) ++
    [byte 'e', if power < 0 then byte '-' else byte '+'] ++
    padLeft 2 (byte '0') (natText power.natAbs)

def text (x : Number) : Bytes :=
  if x.isNaN then utf8 "NaN"
  else if x.isInfinite then utf8 (if x.isNegative then "-Inf" else "+Inf")
  else
    let sign := if x.isNegative then [byte '-'] else []
    if x.isZero then sign ++ [byte '0']
    else
      let s := shortest x
      let digits := significant s
      let power := s.tens + (natText s.n).length - 1
      sign ++ if -4 ≤ power ∧ power ≤ 5 then plain digits power else scientific digits power

end ExprMachine.Number
