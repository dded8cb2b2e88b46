import ExprMachine.Text.Bytes

/-! Integers of 64 bits as they are written in programs: a sign, a mark for the base, and digits
that may be grouped by underscores. -/
namespace ExprMachine.Text

inductive IntegerError where
  | malformed
  | outOfRange
  deriving DecidableEq, Repr

def digitValue? (b : UInt8) : Option Nat :=
  if isDigit b then some (b.toNat - 48)
  else if isLower (lower b) then some ((lower b).toNat - 87)
  else none

/-- The natural number that digits denote after `sofar`; underscores are passed over. Numbers that
need more than 64 bits are out of range, whatever follows. -/
def readDigits (base : Nat) : (sofar : Nat) → Bytes → Except IntegerError Nat
  | sofar, [] => .ok sofar
  | sofar, b :: rest =>
    if b = byte '_' then readDigits base sofar rest
    else
      match digitValue? b with
      | none => .error .malformed
      | some d =>
        if base ≤ d then .error .malformed
        else if 0x1_0000_0000_0000_0000 ≤ sofar * base + d then .error .outOfRange
        else readDigits base (sofar * base + d) rest

def markedBase? (mark : UInt8) : Option Nat :=
  if lower mark = byte 'b' then some 2
  else if lower mark = byte 'o' then some 8
  else if lower mark = byte 'x' then some 16
  else none

def baseAndDigits (s : Bytes) : Nat × Bytes :=
  match s with
  | zero :: rest =>
    if zero ≠ byte '0' then (10, s)
    else
      match rest with
      | mark :: digit :: more =>
        match markedBase? mark with
        | some base => (base, digit :: more)
        | none => (8, rest)
      | _ => (8, rest)
  | [] => (10, [])

def groupsDigits : (after : Bool) → Bytes → Bool
  -- `after` says whether a digit went before; the mark of a base counts as one.
  | _, [] => true
  | _, [b] => b != byte '_'
  | after, b :: c :: rest =>
    if b = byte '_' then after && c != byte '_' && groupsDigits false (c :: rest)
    else groupsDigits true (c :: rest)

def readNatural (s : Bytes) : Except IntegerError Nat :=
  if s.isEmpty then .error .malformed
  else
    let (base, digits) := baseAndDigits s
    match readDigits base 0 digits with
    | .error e => .error e
    | .ok n => if groupsDigits (base != 10) digits then .ok n else .error .malformed

def readInteger (s : Bytes) : Except IntegerError Int :=
  let negative := s.head? == some (byte '-')
  match readNatural (if negative || s.head? == some (byte '+') then s.drop 1 else s) with
  | .error e => .error e
  | .ok n =>
    if negative then if n ≤ 0x8000_0000_0000_0000 then .ok (-n) else .error .outOfRange
    else if n < 0x8000_0000_0000_0000 then .ok n else .error .outOfRange

end ExprMachine.Text
