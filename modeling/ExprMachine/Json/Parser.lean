import ExprMachine.Json.Basic

/-! Reading JSON text. The text is first cut into tokens, and the tokens are then put together with
the arrays and objects that are still open kept on a stack. -/
namespace ExprMachine.Json

open Text (utf8 byte isDigit hexValue?)

inductive Token where
  | openArray
  | closeArray
  | openObject
  | closeObject
  | comma
  | colon
  | string (s : Bytes)
  | word (s : Bytes)
  deriving DecidableEq, Repr

def isSpace (b : UInt8) : Bool := b == 32 || b == 10 || b == 13 || b == 9

def isWordByte (b : UInt8) : Bool :=
  Text.isWordByte b || b == byte '-' || b == byte '+' || b == byte '.'

def punctuation? (b : UInt8) : Option Token :=
  if b = byte '[' then some .openArray
  else if b = byte ']' then some .closeArray
  else if b = byte '\x7b' then some .openObject
  else if b = byte '\x7d' then some .closeObject
  else if b = byte ',' then some .comma
  else if b = byte ':' then some .colon
  else none

def unit? (a b c d : UInt8) : Option Nat := do
  some ((((← hexValue? a) * 16 + (← hexValue? b)) * 16 + (← hexValue? c)) * 16 + (← hexValue? d))

def pairedChar? (first second : Nat) : Option Char :=
  if 0xd800 ≤ first ∧ first < 0xdc00 ∧ 0xdc00 ≤ second ∧ second < 0xe000 then
    some (Char.ofNat (0x10000 + (first - 0xd800) * 0x400 + (second - 0xdc00)))
  else none

def unescape? (b : UInt8) : Option UInt8 :=
  if b = byte '"' ∨ b = byte '\\' ∨ b = byte '/' then some b
  else if b = byte 'b' then some 8
  else if b = byte 'f' then some 12
  else if b = byte 'n' then some 10
  else if b = byte 'r' then some 13
  else if b = byte 't' then some 9
  else none

def readChar? : Bytes → Option (Bytes × Bytes)
  | [] => none
  | b :: rest =>
    if b = byte '\\' then
      match rest with
      | [] => none
      | e :: rest =>
        if e = byte 'u' then
          match rest with
          | a :: b :: c :: d :: rest => do
            let u ← unit? a b c d
            if 0xd800 ≤ u ∧ u < 0xe000 then
              match rest with
              | x :: y :: a :: b :: c :: d :: rest =>
                if x = byte '\\' ∧ y = byte 'u' then
                  let c ← pairedChar? u (← unit? a b c d)
                  some (String.utf8EncodeChar c, rest)
                else none
              | _ => none
            else some (String.utf8EncodeChar (Char.ofNat u), rest)
          | _ => none
        else (unescape? e).map fun b => ([b], rest)
    else if b < 32 then none
    else some ([b], rest)

theorem readChar?_length {s out rest : Bytes} (h : readChar? s = some (out, rest)) :
    rest.length < s.length := by
  unfold readChar? at h
  split at h
  · contradiction
  · rename_i b tail
    split at h
    · split at h
      · contradiction
      · split at h
        · split at h
          · simp only [bind, Option.bind_eq_some_iff] at h
            obtain ⟨u, _, h⟩ := h
            split at h
            · split at h
              · split at h
                · simp only [Option.bind_eq_some_iff] at h
                  obtain ⟨_, _, _, _, h⟩ := h
                  cases Option.some.inj h
                  simp only [List.length_cons]
                  omega
                · contradiction
              · contradiction
            · cases Option.some.inj h
              simp only [List.length_cons]
              omega
          · contradiction
        · obtain ⟨_, _, h⟩ := Option.map_eq_some_iff.mp h
          cases h
          simp only [List.length_cons]
          omega
    · split at h
      · contradiction
      · cases Option.some.inj h
        simp only [List.length_cons]
        omega

def readString? (s : Bytes) : Option (Bytes × Bytes) :=
  match s with
  | [] => none
  | b :: rest =>
    if b = byte '"' then some ([], rest)
    else
      match _h : readChar? (b :: rest) with
      | none => none
      | some (out, after) => (readString? after).map fun (text, rest) => (out ++ text, rest)
termination_by s.length
decreasing_by exact readChar?_length _h

theorem readString?_length {s out rest : Bytes} (h : readString? s = some (out, rest)) :
    rest.length < s.length := by
  induction s using readString?.induct generalizing out rest with
  | case1 => simp [readString?] at h
  | case2 tail =>
    rw [readString?, if_pos rfl] at h
    cases Option.some.inj h
    simp
  | case3 b tail hb hc =>
    rw [readString?, if_neg hb] at h
    split at h <;> simp_all
  | case4 b tail hb cs after hc ih =>
    rw [readString?, if_neg hb] at h
    split at h
    · contradiction
    · rename_i out' after' hc'
      rw [hc] at hc'
      cases Option.some.inj hc'
      obtain ⟨⟨text, last⟩, read, same⟩ := Option.map_eq_some_iff.mp h
      cases same
      exact Nat.lt_trans (ih read) (readChar?_length hc)

def tokens? (s : Bytes) : Option (List Token) :=
  match s with
  | [] => some []
  | b :: rest =>
    if isSpace b then tokens? rest
    else
      match punctuation? b with
      | some t => (tokens? rest).map (t :: ·)
      | none =>
        if b = byte '"' then
          match _h : readString? rest with
          | none => none
          | some (text, after) => (tokens? after).map (.string text :: ·)
        else if isWordByte b then
          (tokens? (rest.dropWhile isWordByte)).map (.word (b :: rest.takeWhile isWordByte) :: ·)
        else none
termination_by s.length
decreasing_by
  · simp
  · simp
  · have := readString?_length _h
    simp
    omega
  · have := Text.length_dropWhile_le isWordByte rest
    simp
    omega

def isIntegerPart : Bytes → Bool
  | [] => false
  | [b] => isDigit b
  | b :: rest => isDigit b && b != byte '0' && rest.all isDigit

def isDigits (s : Bytes) : Bool := !s.isEmpty && s.all isDigit

def isExponentPart : Bytes → Bool
  -- The mark of an exponent and its sign may stand without digits.
  | [] => true
  | e :: rest =>
    (e == byte 'e' || e == byte 'E') &&
      match rest with
      | [] => true
      | sign :: digits => (isDigit sign || sign == byte '+' || sign == byte '-') && digits.all isDigit

def isFractionPart : Bytes → Bool
  | [] => true
  | b :: rest =>
    if b = byte '.' then
      isDigits (rest.takeWhile isDigit) && isExponentPart (rest.dropWhile isDigit)
    else isExponentPart (b :: rest)

def isNumber : Bytes → Bool
  | [] => false
  | b :: rest =>
    let magnitude := if b = byte '-' then rest else b :: rest
    isIntegerPart (magnitude.takeWhile isDigit) && isFractionPart (magnitude.dropWhile isDigit)

def ofWord? (s : Bytes) : Option Json :=
  if s = utf8 "null" then some .null
  else if s = utf8 "true" then some (.bool true)
  else if s = utf8 "false" then some (.bool false)
  else if isNumber s then some (.number s)
  else none

inductive Frame where
  | array (done : List Json)
  | object (done : List (Bytes × Json)) (name : Bytes)

inductive Place where
  | value
  | firstItem
  | name (done : List (Bytes × Json))
  | colon (done : List (Bytes × Json)) (name : Bytes)
  | after (v : Json)

def maxDepth : Nat := 10000

def advance? : Place → List Frame → Token → Option (Place × List Frame)
  | .firstItem, .array _ :: stack, .closeArray => some (.after (.array []), stack)
  | .value, stack, t => start? stack t
  | .firstItem, stack, t => start? stack t
  | .name [], stack, .closeObject => some (.after (.object []), stack)
  | .name done, stack, .string s => some (.colon done s, stack)
  | .colon done name, stack, .colon => some (.value, .object done name :: stack)
  | .after v, .array done :: stack, .comma => some (.value, .array (v :: done) :: stack)
  | .after v, .array done :: stack, .closeArray =>
    some (.after (.array (v :: done).reverse), stack)
  | .after v, .object done name :: stack, .comma => some (.name ((name, v) :: done), stack)
  | .after v, .object done name :: stack, .closeObject =>
    some (.after (.object ((name, v) :: done).reverse), stack)
  | _, _, _ => none
where
  start? (stack : List Frame) : Token → Option (Place × List Frame)
    | .openArray => if stack.length < maxDepth then some (.firstItem, .array [] :: stack) else none
    | .openObject => if stack.length < maxDepth then some (.name [], stack) else none
    | .string s => some (.after (.string s), stack)
    | .word s => (ofWord? s).map fun v => (.after v, stack)
    | _ => none

def build? : Place → List Frame → List Token → Option Json
  | .after v, [], [] => some v
  | _, _, [] => none
  | place, stack, t :: rest =>
    match advance? place stack t with
    | some (place, stack) => build? place stack rest
    | none => none

def parse? (s : Bytes) : Option Json :=
  if Text.isValid s then (tokens? s).bind (build? .value []) else none

end ExprMachine.Json
