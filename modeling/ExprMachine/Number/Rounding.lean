import ExprMachine.Number.Basic

/-! The nearest number to a fraction of naturals, a tie going to the even coefficient. -/
namespace ExprMachine.Number

def roundQuotient (num den : Nat) : Nat :=
  -- A half goes to the even neighbour.
  let q := num / den
  let twice := 2 * (num % den)
  if twice < den then q
  else if den < twice then q + 1
  else q + q % 2

def scaleDown (q : Int) (num den : Nat) : Nat × Nat :=
  (num * twoTo (-q).toNat, den * twoTo q.toNat)

/-- The power of two by which `num / den` is measured: its quotient has 53 bits, or fewer below the
smallest normal number. -/
def ratioPower (num den : Nat) : Int :=
  let q : Int := (num.log2 : Int) - den.log2 - 53
  let (n, d) := scaleDown q num den
  max (if d * (2 * exponentUnit) ≤ n then q + 1 else q) (-1074)

def ofRatio? (num den : Nat) : Option Number :=
  if num = 0 then some zero
  else
    let q := ratioPower num den
    let (n, d) := scaleDown q num den
    let bits := (q + 1074).toNat * exponentUnit + roundQuotient n d
    if bits < 0x7ff0000000000000 then some ⟨bits.toUInt64⟩ else none

def ofInt (n : Int) : Number := ((ofRatio? n.natAbs 1).getD infinity).withSign (n < 0)

end ExprMachine.Number
