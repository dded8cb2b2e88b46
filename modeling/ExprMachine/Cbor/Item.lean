import ExprMachine.Text.Bytes

/-! CBOR data items, and the reader for well-formed ones. A head gives a major type and an argument;
lists and maps nest at most 32 levels deep and hold at most 131072 elements or pairs. -/
namespace ExprMachine.Cbor

open Text (bigEndian bigEndianBytes)

inductive FloatWidth where
  | half
  | single
  | double
  deriving DecidableEq, Repr

inductive Item where
  | unsigned (n : Nat)
  -- the integer -1 - n
  | negative (n : Nat)
  | bytes (pieces : List Bytes)
  | text (pieces : List Bytes)
  | array (items : List Item)
  | map (entries : List (Item × Item))
  | tag (number : Nat) (content : Item)
  | simple (n : Nat)
  | bool (b : Bool)
  | null
  | float (width : FloatWidth) (pattern : Nat)

def takeExactly (n : Nat) (s : Bytes) : Option (Bytes × Bytes) :=
  if n ≤ s.length then some (s.take n, s.drop n) else none

inductive Argument where
  | definite (n : Nat)
  | indefinite
  deriving DecidableEq, Repr

structure Head where
  major : Nat
  info : Nat
  argument : Argument
  deriving DecidableEq, Repr

def argumentWidth? (info : Nat) : Option Nat :=
  if info = 24 then some 1 else if info = 25 then some 2 else if info = 26 then some 4
  else if info = 27 then some 8 else none

def readHead : Bytes → Option (Head × Bytes)
  -- Only strings, lists and maps may leave their length open; a simple value below 32 has no
  -- argument byte.
  | [] => none
  | b :: rest =>
    let major := b.toNat / 32
    let info := b.toNat % 32
    if info < 24 then some (⟨major, info, .definite info⟩, rest)
    else if info = 31 then
      if 2 ≤ major ∧ major ≤ 5 then some (⟨major, info, .indefinite⟩, rest) else none
    else do
      let width ← argumentWidth? info
      let (argument, rest) ← takeExactly width rest
      let n := bigEndian argument
      if major = 7 ∧ info = 24 ∧ n < 32 then none else some (⟨major, info, .definite n⟩, rest)

def maxLevels : Nat := 32

def maxElements : Nat := 131072

def breakByte : UInt8 := 0xff

def simpleItem (info n : Nat) : Item :=
  if info = 20 then .bool false
  else if info = 21 then .bool true
  else if info = 22 ∨ info = 23 then .null
  else if info = 25 then .float .half n
  else if info = 26 then .float .single n
  else if info = 27 then .float .double n
  else .simple n

def readPieces (major : Nat) : (fuel : Nat) → List Bytes → Bytes → Option (List Bytes × Bytes)
  | 0, _, _ => none
  | fuel + 1, pieces, s =>
    if s.head? = some breakByte then some (pieces.reverse, s.drop 1)
    else do
      let (head, rest) ← readHead s
      match head.argument with
      | .definite n =>
        if head.major = major then
          let (piece, rest) ← takeExactly n rest
          readPieces major fuel (piece :: pieces) rest
        else none
      | .indefinite => none

def pairUp : List Item → Option (List (Item × Item))
  | [] => some []
  | [_] => none
  | key :: value :: rest => (pairUp rest).map ((key, value) :: ·)

mutual

def readItem : (fuel levels : Nat) → Bytes → Option (Item × Bytes)
  -- `levels` is how deep lists, maps and directly nested tags may still go.
  | 0, _, _ => none
  | fuel + 1, levels, s => do
    let (head, rest) ← readHead s
    match head.major, head.argument with
    | 0, .definite n => some (.unsigned n, rest)
    | 1, .definite n => some (.negative n, rest)
    | 2, .definite n => (takeExactly n rest).map fun (piece, rest) => (.bytes [piece], rest)
    | 2, .indefinite => (readPieces 2 s.length [] rest).map fun (ps, rest) => (.bytes ps, rest)
    | 3, .definite n => (takeExactly n rest).map fun (piece, rest) => (.text [piece], rest)
    | 3, .indefinite => (readPieces 3 s.length [] rest).map fun (ps, rest) => (.text ps, rest)
    | 4, .definite n =>
      if 0 < levels ∧ n ≤ maxElements then
        (readItems fuel (levels - 1) n [] rest).map fun (items, rest) => (.array items, rest)
      else none
    | 4, .indefinite =>
      if 0 < levels then do
        let (items, rest) ← readOpen fuel (levels - 1) [] rest
        if items.length ≤ maxElements then some (.array items, rest) else none
      else none
    | 5, .definite n =>
      if 0 < levels ∧ n ≤ maxElements then do
        let (items, rest) ← readItems fuel (levels - 1) (2 * n) [] rest
        (pairUp items).map fun entries => (.map entries, rest)
      else none
    | 5, .indefinite =>
      if 0 < levels then do
        let (items, rest) ← readOpen fuel (levels - 1) [] rest
        let entries ← pairUp items
        if entries.length ≤ maxElements then some (.map entries, rest) else none
      else none
    | 6, .definite n =>
      if (rest.head?.map (·.toNat / 32)) = some 6 then
        if 0 < levels then
          (readItem fuel (levels - 1) rest).map fun (item, rest) => (.tag n item, rest)
        else none
      else (readItem fuel levels rest).map fun (item, rest) => (.tag n item, rest)
    | _, .definite n => some (simpleItem head.info n, rest)
    | _, .indefinite => none

def readItems : (fuel levels count : Nat) → List Item → Bytes → Option (List Item × Bytes)
  | 0, _, _, _, _ => none
  | _ + 1, _, 0, items, s => some (items.reverse, s)
  | fuel + 1, levels, count + 1, items, s =>
    match readItem fuel levels s with
    | some (item, rest) => readItems fuel levels count (item :: items) rest
    | none => none

def readOpen : (fuel levels : Nat) → List Item → Bytes → Option (List Item × Bytes)
  | 0, _, _, _ => none
  | fuel + 1, levels, items, s =>
    if s.head? = some breakByte then some (items.reverse, s.drop 1)
    else
      match readItem fuel levels s with
      | some (item, rest) => readOpen fuel levels (item :: items) rest
      | none => none

end

def parse (s : Bytes) : Option Item :=
  match readItem (2 * s.length + 2) maxLevels s with
  | some (item, []) => some item
  | _ => none

def writeHead (major n : Nat) : Bytes :=
  let first := fun info : Nat => (major * 32 + info).toUInt8
  if n < 24 then [first n]
  else if n < 0x100 then first 24 :: bigEndianBytes 1 n
  else if n < 0x10000 then first 25 :: bigEndianBytes 2 n
  else if n < 0x1_0000_0000 then first 26 :: bigEndianBytes 4 n
  else first 27 :: bigEndianBytes 8 n

def writeInt : Int → Bytes
  | .ofNat n => writeHead 0 n
  | .negSucc n => writeHead 1 n

def writeText (s : Bytes) : Bytes := writeHead 3 s.length ++ s

end ExprMachine.Cbor
