import ExprMachine.Number.Rounding
import ExprMachine.Text.Utf8

/-! Single values of the settings format: strings of four kinds, integers, and the spelling of
floating-point numbers and of dates and times. Only strings, integers and truth values have a
meaning to the settings; the others are only checked. -/
namespace ExprMachine.Toml

open Text (utf8 byte newline isDigit digitsValue hexValue?)

/-! Strings. -/

def quoteMark : UInt8 := byte '"'

def apostrophe : UInt8 := byte '\''

def hexDigitsValue? (s : Bytes) : Option Nat :=
  s.foldlM (fun n b => (hexValue? b).map (n * 16 + ·)) 0

def readCode? (width : Nat) (s : Bytes) : Option (Bytes × Bytes) :=
  if s.length < width then none
  else
    match hexDigitsValue? (s.take width) with
    | some n =>
      if n.isValidChar then some (String.utf8EncodeChar (Char.ofNat n), s.drop width) else none
    | none => none

def unescape? (b : UInt8) : Option UInt8 :=
  if b = quoteMark ∨ b = byte '\\' then some b
  else if b = byte 'b' then some 8
  else if b = byte 't' then some 9
  else if b = byte 'n' then some 10
  else if b = byte 'f' then some 12
  else if b = byte 'r' then some 13
  else if b = byte 'e' then some 27
  else none

def readEscape? : Bytes → Option (Bytes × Bytes)
  | [] => none
  | b :: rest =>
    if b = byte 'x' then readCode? 2 rest
    else if b = byte 'u' then readCode? 4 rest
    else if b = byte 'U' then readCode? 8 rest
    else (unescape? b).map fun out => ([out], rest)

theorem readCode?_length {width : Nat} {s out rest : Bytes}
    (h : readCode? width s = some (out, rest)) : rest.length ≤ s.length := by
  unfold readCode? at h
  split at h
  · contradiction
  · split at h
    · split at h
      · cases Option.some.inj h
        simp
      · contradiction
    · contradiction

theorem readEscape?_length {s out rest : Bytes} (h : readEscape? s = some (out, rest)) :
    rest.length < s.length := by
  cases s with
  | nil => simp [readEscape?] at h
  | cons b tail =>
    simp only [readEscape?] at h
    split at h
    · exact Nat.lt_succ_of_le (readCode?_length h)
    · split at h
      · exact Nat.lt_succ_of_le (readCode?_length h)
      · split at h
        · exact Nat.lt_succ_of_le (readCode?_length h)
        · obtain ⟨_, _, same⟩ := Option.map_eq_some_iff.mp h
          cases same
          simp

def isLineEnd (b : UInt8) : Bool := b == 10 || b == 13

def isBlank (b : UInt8) : Bool := b == 32 || b == 9

def readBasic? (s : Bytes) : Option (Bytes × Bytes) :=
  match s with
  | [] => none
  | b :: rest =>
    if b = quoteMark then some ([], rest)
    else if isLineEnd b then none
    else if b = byte '\\' then
      match _h : readEscape? rest with
      | none => none
      | some (out, after) => (readBasic? after).map fun (text, rest) => (out ++ text, rest)
    else (readBasic? rest).map fun (text, rest) => (b :: text, rest)
termination_by s.length
decreasing_by
  · have := readEscape?_length _h
    simp
    omega
  · simp

def readLiteral? : Bytes → Option (Bytes × Bytes)
  | [] => none
  | b :: rest =>
    if b = apostrophe then some ([], rest)
    else if isLineEnd b then none
    else (readLiteral? rest).map fun (text, rest) => (b :: text, rest)

/-- A run of three marks or more ends a text of several lines, and all but the last three belong to
it; a shorter run is text, and one that is longer than it may be is an error. -/
inductive Run where
  | text (marks : Bytes)
  | close (marks : Bytes)
  | tooLong
  deriving DecidableEq, Repr

def Run.ofLength (mark : UInt8) (longest n : Nat) : Run :=
  if n < 3 then .text (List.replicate n mark)
  else if n ≤ longest then .close (List.replicate (n - 3) mark)
  else .tooLong

def longestRun : Nat := 5

def readMultilineFrom? (longest : Nat) (s : Bytes) : Option (Bytes × Bytes) :=
  match s with
  | [] => none
  | b :: rest =>
    if b = quoteMark then
      let after := rest.dropWhile (· == quoteMark)
      match Run.ofLength quoteMark longest (1 + (rest.takeWhile (· == quoteMark)).length) with
      | .text marks =>
        (readMultilineFrom? longestRun after).map fun (text, rest) => (marks ++ text, rest)
      | .close marks => some (marks, after)
      | .tooLong => none
    else if b = byte '\\' then
      if (rest.takeWhile fun b => isBlank b || isLineEnd b).contains newline then
        readMultilineFrom? longestRun (rest.dropWhile fun b => isBlank b || isLineEnd b)
      else
        match _h : readEscape? rest with
        | none => none
        | some (out, after) =>
          let longest := if rest.head? = some (byte '\\') then longestRun + 1 else longestRun
          (readMultilineFrom? longest after).map fun (text, rest) => (out ++ text, rest)
    else (readMultilineFrom? longestRun rest).map fun (text, rest) => (b :: text, rest)
termination_by s.length
decreasing_by
  · have := Text.length_dropWhile_le (· == quoteMark) rest
    simp
    omega
  · have := Text.length_dropWhile_le (fun b => isBlank b || isLineEnd b) rest
    simp
    omega
  · have := readEscape?_length _h
    simp
    omega
  · simp

-- Reads a string of several lines. A run of its marks right after a backslash that is text may be
-- one longer than any other.
def readMultiline? (s : Bytes) : Option (Bytes × Bytes) := readMultilineFrom? longestRun s

def readMultilineLiteral? (s : Bytes) : Option (Bytes × Bytes) :=
  match s with
  | [] => none
  | b :: rest =>
    if b = apostrophe then
      let after := rest.dropWhile (· == apostrophe)
      match Run.ofLength apostrophe longestRun (1 + (rest.takeWhile (· == apostrophe)).length) with
      | .text marks => (readMultilineLiteral? after).map fun (text, rest) => (marks ++ text, rest)
      | .close marks => some (marks, after)
      | .tooLong => none
    else (readMultilineLiteral? rest).map fun (text, rest) => (b :: text, rest)
termination_by s.length
decreasing_by
  · have := Text.length_dropWhile_le (· == apostrophe) rest
    simp
    omega
  · simp

def dropLineEnd (s : Bytes) : Bytes :=
  match s with
  | 10 :: rest => rest
  | 13 :: 10 :: rest => rest
  | _ => s

def readString? (s : Bytes) : Option (Bytes × Bytes) :=
  match Text.dropHead? (utf8 "\"\"\"") s, Text.dropHead? (utf8 "'''") s with
  | some rest, _ => readMultiline? (dropLineEnd rest)
  | none, some rest => readMultilineLiteral? (dropLineEnd rest)
  | none, none =>
    match s with
    | [] => none
    | b :: rest =>
      if b = quoteMark then readBasic? rest
      else if b = apostrophe then readLiteral? rest
      else none

/-! Numbers. -/

def digits? (isDigit : UInt8 → Bool) : Bytes → Option Bytes
  | [] => none
  | [b] => if isDigit b then some [b] else none
  | b :: c :: rest =>
    if !isDigit b then none
    else if c = byte '_' then (digits? isDigit rest).map (b :: ·)
    else (digits? isDigit (c :: rest)).map (b :: ·)

def wholeDigits? (s : Bytes) : Option Bytes :=
  (digits? isDigit s).filter fun _ => s.length = 1 || s.head? != some (byte '0')

def unsigned : Bytes → Bool × Bytes
  | [] => (false, [])
  | b :: rest =>
    if b = byte '-' then (true, rest)
    else if b = byte '+' then (false, rest)
    else (false, b :: rest)

def basedValue? (base : Nat) (s : Bytes) : Option Nat :=
  (digits? (fun b => (hexValue? b).any (· < base)) s).map fun ds =>
    ds.foldl (fun n b => n * base + (hexValue? b).getD 0) 0

def baseIntegerValue? : Bytes → Option Nat
  | zero :: mark :: rest =>
    if zero ≠ byte '0' then none
    else if mark = byte 'x' then basedValue? 16 rest
    else if mark = byte 'o' then basedValue? 8 rest
    else if mark = byte 'b' then basedValue? 2 rest
    else none
  | _ => none

def integerValue? (word : Bytes) : Option Int :=
  let value : Option Int :=
    match baseIntegerValue? word with
    | some n => some n
    | none =>
      let (negative, body) := unsigned word
      (wholeDigits? body).map fun ds =>
        if negative then -(digitsValue ds : Int) else digitsValue ds
  value.filter fun n => -(0x8000_0000_0000_0000 : Int) ≤ n ∧ n < 0x8000_0000_0000_0000

def isExponentMark (b : UInt8) : Bool := b == byte 'e' || b == byte 'E'

def isFinite (digits : Bytes) (places : Nat) (exponent : Int) : Bool :=
  let n := digitsValue digits
  let power := exponent - places
  if n = 0 ∨ power + (Text.natText n).length < -400 then true
  else if 400 < power + (Text.natText n).length then false
  else (Number.ofRatio? (n * Number.tenTo power.toNat) (Number.tenTo (-power).toNat)).isSome

def fractionDigits? : Bytes → Option Bytes
  | [] => some []
  | _ :: rest => digits? isDigit rest

def exponentValue? : Bytes → Option Int
  | [] => some 0
  | _ :: rest =>
    let (negative, body) := unsigned rest
    (digits? isDigit body).map fun ds => if negative then -(digitsValue ds : Int) else digitsValue ds

def isFloat (word : Bytes) : Bool :=
  let body := (unsigned word).2
  let mantissa := body.takeWhile (!isExponentMark ·)
  let exponent := body.dropWhile (!isExponentMark ·)
  let fraction := mantissa.dropWhile (· != byte '.')
  if body = utf8 "inf" ∨ body = utf8 "nan" then true
  else if fraction.isEmpty && exponent.isEmpty then false
  else
    match wholeDigits? (mantissa.takeWhile (· != byte '.')), fractionDigits? fraction,
      exponentValue? exponent with
    | some whole, some places, some e => isFinite (whole ++ places) places.length e
    | _, _, _ => false

/-! Dates and times. -/

def readDigits? (width limit : Nat) (s : Bytes) : Option (Nat × Bytes) :=
  let ds := s.take width
  if ds.length = width ∧ ds.all isDigit ∧ digitsValue ds < limit then
    some (digitsValue ds, s.drop width)
  else none

def dropMark? (c : Char) : Bytes → Option Bytes
  | [] => none
  | b :: rest => if b = byte c then some rest else none

def isLeapYear (year : Nat) : Bool := year % 4 = 0 && (year % 100 ≠ 0 || year % 400 = 0)

def daysIn (year month : Nat) : Nat :=
  if month = 2 then if isLeapYear year then 29 else 28
  else if month = 4 ∨ month = 6 ∨ month = 9 ∨ month = 11 then 30
  else 31

def afterDate? (s : Bytes) : Option Bytes := do
  let (year, s) ← readDigits? 4 10000 s
  let (month, s) ← readDigits? 2 13 (← dropMark? '-' s)
  let (day, s) ← readDigits? 2 32 (← dropMark? '-' s)
  if 1 ≤ month ∧ 1 ≤ day ∧ day ≤ daysIn year month then some s else none

def afterFraction (s : Bytes) : Bytes :=
  match s with
  | b :: c :: rest => if b = byte '.' ∧ isDigit c then rest.dropWhile isDigit else s
  | _ => s

def afterTime? (s : Bytes) : Option Bytes := do
  let (_, s) ← readDigits? 2 24 s
  let (_, s) ← readDigits? 2 60 (← dropMark? ':' s)
  match dropMark? ':' s with
  | none => some s
  | some s =>
    let (_, s) ← readDigits? 2 60 s
    some (afterFraction s)

def afterOffset? (s : Bytes) : Option Bytes :=
  -- A whole day and a whole hour are still taken.
  match s with
  | [] => none
  | b :: rest =>
    if b = byte 'Z' ∨ b = byte 'z' then some rest
    else if b = byte '+' ∨ b = byte '-' then do
      let (_, s) ← readDigits? 2 25 rest
      let (_, s) ← readDigits? 2 61 (← dropMark? ':' s)
      some s
    else none

def isDate (word : Bytes) : Bool :=
  match afterDate? word with
  | none => afterTime? word == some []
  | some [] => true
  | some (mark :: rest) =>
    (mark == byte 'T' || mark == byte 't') &&
      match afterTime? rest with
      | none => false
      | some [] => true
      | some zone => afterOffset? zone == some []

end ExprMachine.Toml
