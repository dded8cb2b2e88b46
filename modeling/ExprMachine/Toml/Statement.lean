import ExprMachine.Toml.Scalar

/-! The statements of a settings text: headers of tables and assignments of values to keys. What
the statements add up to is not decided here. -/
namespace ExprMachine.Toml

open Text (utf8 byte newline isDigit)

abbrev Key := List Bytes

inductive Expr where
  | text (s : Bytes)
  | integer (n : Int)
  | boolean (b : Bool)
  | other
  | array (items : List Expr)
  | record (members : List (Key × Expr))

inductive Statement where
  | table (key : Key)
  | arrayTable (key : Key)
  | assign (key : Key) (value : Expr)

/-! What stands between the parts of a statement. -/

def skipBlanks (s : Bytes) : Bytes := s.dropWhile isBlank

def skipTrivia (s : Bytes) : Bytes :=
  match s with
  | [] => []
  | b :: rest =>
    if isBlank b || isLineEnd b then skipTrivia rest
    else if b = byte '#' then skipTrivia (rest.dropWhile (· != newline))
    else b :: rest
termination_by s.length
decreasing_by
  · simp
  · have := Text.length_dropWhile_le (· != newline) rest
    simp
    omega

def endLine? (s : Bytes) : Option Bytes :=
  match skipBlanks s with
  | [] => some []
  | b :: rest =>
    if b = byte '#' then some (rest.dropWhile (· != newline))
    else if isLineEnd b then some rest
    else none

/-! Keys. -/

def isBareByte (b : UInt8) : Bool := Text.isWordByte b || b == byte '-'

def readName? (s : Bytes) : Option (Bytes × Bytes) :=
  match s with
  | [] => none
  | b :: rest =>
    if b = quoteMark then readBasic? rest
    else if b = apostrophe then readLiteral? rest
    else
      let name := s.takeWhile isBareByte
      if name.isEmpty then none else some (name, s.dropWhile isBareByte)

def readKey? (s : Bytes) : Option (Key × Bytes) :=
  match readName? (skipBlanks s) with
  | none => none
  | some (name, rest) =>
    match skipBlanks rest with
    | [] => some ([name], [])
    | b :: after =>
      if b = byte '.' then
        if _h : after.length < s.length then
          (readKey? after).map fun (names, rest) => (name :: names, rest)
        else none
      else some ([name], b :: after)
termination_by s.length

/-! Values. -/

def isWordByte (b : UInt8) : Bool :=
  Text.isWordByte b || b == byte '-' || b == byte '+' || b == byte '.' || b == byte ':'

def ofWord? (word : Bytes) : Option Expr :=
  if word = utf8 "true" then some (.boolean true)
  else if word = utf8 "false" then some (.boolean false)
  else
    match integerValue? word with
    | some n => some (.integer n)
    | none => if isFloat word || isDate word then some .other else none

def readWord (s : Bytes) : Bytes × Bytes :=
  -- A day and a time of day may have one blank between them.
  let word := s.takeWhile isWordByte
  let rest := s.dropWhile isWordByte
  match rest with
  | blank :: b :: _ =>
    if blank = 32 ∧ isDigit b ∧ afterDate? word = some [] then
      (word ++ [byte 'T'] ++ (rest.drop 1).takeWhile isWordByte,
        (rest.drop 1).dropWhile isWordByte)
    else (word, rest)
  | _ => (word, rest)

def readScalar? (s : Bytes) : Option (Expr × Bytes) :=
  if s.head? = some quoteMark ∨ s.head? = some apostrophe then
    (readString? s).map fun (text, rest) => (.text text, rest)
  else
    let (word, rest) := readWord s
    (ofWord? word).map fun e => (e, rest)

inductive Frame where
  | array (done : List Expr)
  | record (done : List (Key × Expr)) (key : Key)

inductive Place where
  | value
  | item (done : List Expr)
  | member (done : List (Key × Expr))
  | after (e : Expr)

def advance? (place : Place) (stack : List Frame) (s : Bytes) :
    Option (Place × List Frame × Bytes) :=
  match place with
  | .value =>
    match skipBlanks s with
    | [] => none
    | b :: rest =>
      if b = byte '[' then some (.item [], stack, rest)
      else if b = byte '\x7b' then some (.member [], stack, rest)
      else (readScalar? (b :: rest)).map fun (e, rest) => (.after e, stack, rest)
  | .item done =>
    match skipTrivia s with
    | [] => none
    | b :: rest =>
      if b = byte ']' then some (.after (.array done.reverse), stack, rest)
      else if b = byte '[' then some (.item [], .array done :: stack, rest)
      else if b = byte '\x7b' then some (.member [], .array done :: stack, rest)
      else (readScalar? (b :: rest)).map fun (e, rest) => (.after e, .array done :: stack, rest)
  | .member done =>
    match skipTrivia s with
    | [] => none
    | b :: rest =>
      if b = byte '\x7d' then some (.after (.record done.reverse), stack, rest)
      else do
        let (key, rest) ← readKey? (b :: rest)
        some (.value, .record done key :: stack, ← dropMark? '=' rest)
  | .after e =>
    match stack, skipTrivia s with
    | .array done :: stack, b :: rest =>
      if b = byte ',' then some (.item (e :: done), stack, rest)
      else if b = byte ']' then some (.after (.array (e :: done).reverse), stack, rest)
      else none
    | .record done key :: stack, b :: rest =>
      if b = byte ',' then some (.member ((key, e) :: done), stack, rest)
      else if b = byte '\x7d' then
        some (.after (.record ((key, e) :: done).reverse), stack, rest)
      else none
    | _, _ => none

def readOn? (place : Place) (stack : List Frame) (s : Bytes) : Option (Expr × Bytes) :=
  match place, stack with
  | .after e, [] => some (e, s)
  | place, stack =>
    match advance? place stack s with
    | none => none
    | some (place, stack, rest) =>
      if _h : rest.length < s.length then readOn? place stack rest else none
termination_by s.length

/-! Statements. -/

def readHeader? (s : Bytes) : Option (Statement × Bytes) :=
  match dropMark? '[' s with
  | some s => do
    let (key, rest) ← readKey? s
    some (.arrayTable key, ← dropMark? ']' (← dropMark? ']' rest))
  | none => do
    let (key, rest) ← readKey? s
    some (.table key, ← dropMark? ']' rest)

def readStatement? (s : Bytes) : Option (Statement × Bytes) :=
  match dropMark? '[' s with
  | some s => readHeader? s
  | none => do
    let (key, rest) ← readKey? s
    let (e, rest) ← readOn? .value [] (← dropMark? '=' rest)
    some (.assign key e, rest)

def readStatements? (s : Bytes) : Option (List Statement) :=
  match skipTrivia s with
  | [] => some []
  | b :: tail =>
    match (readStatement? (b :: tail)).bind fun (statement, rest) =>
      (endLine? rest).map (statement, ·) with
    | none => none
    | some (statement, rest) =>
      if _h : rest.length < s.length then (readStatements? rest).map (statement :: ·) else none
termination_by s.length

/-! Whole texts. -/

def dropOrderMark (s : Bytes) : Bytes :=
  match s with
  | 0xff :: 0xfe :: rest => rest
  | 0xfe :: 0xff :: rest => rest
  | 0xef :: 0xbb :: 0xbf :: rest => rest
  | _ => s

def isClean : Bytes → Bool
  -- A carriage return may stand before a line feed only.
  | [] => true
  | b :: rest =>
    (if b = 13 then rest.head? == some newline else b = 9 || b = newline || (32 ≤ b && b ≠ 127)) &&
      isClean rest

def statements? (text : Bytes) : Option (List Statement) :=
  let text := dropOrderMark text
  if isClean text && Text.isValid text then readStatements? text else none

end ExprMachine.Toml
