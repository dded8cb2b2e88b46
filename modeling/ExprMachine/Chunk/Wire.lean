import ExprMachine.Cbor.Typed
import ExprMachine.Chunk.Check
import ExprMachine.Text.Quoted

/-! The encoded form of chunks: a CBOR record of magic, version, instructions, lines and constants
with numbered fields. Writing is canonical, so equal chunks have equal encodings; reading accepts
every encoding of the same record and then checks the chunk. -/
namespace ExprMachine

open Text (utf8 natText quote bigEndianBytes)
open Cbor (Item writeHead writeInt writeText)

def chunkMagic : Bytes := utf8 "LXBC"

def writeNumber (x : Number) : Bytes :=
  if x.isNaN then [0xf9, 0x7e, 0x00]
  else
    match Number.half.narrow? x with
    | some pattern => 0xf9 :: bigEndianBytes 2 pattern
    | none =>
      match Number.single.narrow? x with
      | some pattern => 0xfa :: bigEndianBytes 4 pattern
      | none => 0xfb :: bigEndianBytes 8 x.bits.toNat

def writeRecord (fields : List (Nat × Bytes)) : Bytes :=
  writeHead 5 fields.length ++ fields.flatMap fun (key, content) => writeHead 0 key ++ content

def writeList (items : List Bytes) : Bytes := writeHead 4 items.length ++ items.flatten

def Instruction.encode (i : Instruction) : Bytes :=
  writeRecord <| (1, writeHead 0 i.code.toNat) ::
    if i.operand = 0 then [] else [(2, writeInt i.operand)]

def Value.encode (v : Value) : Bytes :=
  -- The number is always written, false and the empty string never.
  writeRecord <| [(1, writeHead 0 v.kind.tag.toNat), (2, writeNumber v.asNumber)] ++
    (if v.asBool then [(3, [0xf5])] else []) ++
    (if v.asString.isEmpty then [] else [(4, writeText v.asString)])

/-- The canonical encoding of a chunk. An empty line table is null; an empty pool is left out. -/
def Chunk.encode (c : Chunk) : Bytes :=
  writeRecord <|
    [(1, writeText chunkMagic),
      (2, writeHead 0 c.version.toNat),
      (3, writeList (c.code.toList.map Instruction.encode)),
      (4, if c.lines.isEmpty then [0xf6] else writeList (c.lines.toList.map writeInt))] ++
    if c.constants.isEmpty then [] else [(5, writeList (c.constants.toList.map Value.encode))]

inductive WireError where
  | malformed
  | magic (found : Bytes)
  | version (found : Nat)
  | valueKind (tag : UInt8)
  | fault (f : ChunkFault)
  deriving DecidableEq, Repr

def WireError.message (e : WireError) : Bytes :=
  utf8 "bytecode: bad chunk encoding: " ++
    match e with
    | malformed => utf8 "<cbor>"
    | magic found => utf8 "magic " ++ quote found
    | version found => utf8 "unsupported version " ++ natText found
    | valueKind tag => utf8 "unknown value kind " ++ natText tag.toNat
    | fault f => f.message

namespace Wire

structure RawValue where
  kind : UInt8
  number : Number
  bool : Bool
  string : Bytes
  deriving DecidableEq, Repr

structure RawChunk where
  magic : Bytes
  version : Nat
  code : List Instruction
  lines : List Int
  constants : List RawValue
  deriving DecidableEq, Repr

def readInstruction (item : Item) : Option Instruction := do
  let fields ← Cbor.toFields item
  let code ← Cbor.toUnsigned 0x100 (Cbor.field fields 1)
  let operand ← Cbor.toSigned (Cbor.field fields 2)
  return ⟨code.toUInt8, operand⟩

def readValue (item : Item) : Option RawValue := do
  let fields ← Cbor.toFields item
  let kind ← Cbor.toUnsigned 0x100 (Cbor.field fields 1)
  let number ← Cbor.toNumber (Cbor.field fields 2)
  let bool ← Cbor.toBool (Cbor.field fields 3)
  let string ← Cbor.toText (Cbor.field fields 4)
  return ⟨kind.toUInt8, number, bool, string⟩

def readChunk (item : Item) : Option RawChunk := do
  let fields ← Cbor.toFields item
  let magic ← Cbor.toText (Cbor.field fields 1)
  let version ← Cbor.toUnsigned 0x10000 (Cbor.field fields 2)
  let code ← Cbor.toList readInstruction (Cbor.field fields 3)
  let lines ← Cbor.toList Cbor.toSigned (Cbor.field fields 4)
  let constants ← Cbor.toList readValue (Cbor.field fields 5)
  return ⟨magic, version, code, lines, constants⟩

def RawValue.value? (r : RawValue) : Option Value :=
  match Kind.ofTag r.kind with
  | .nil => some .nil
  | .bool => some (.bool r.bool)
  | .number => some (.number r.number)
  | .string => some (.string r.string)
  | .undefined _ _ => none

def values : (done : List Value) → List RawValue → Except WireError (List Value)
  | done, [] => .ok done.reverse
  | done, r :: rest =>
    match r.value? with
    | some v => values (v :: done) rest
    | none => .error (.valueKind r.kind)

end Wire

def Chunk.decode (data : Bytes) : Except WireError Chunk := do
  let some raw := (Cbor.parse data).bind Wire.readChunk | .error .malformed
  if raw.magic ≠ chunkMagic then .error (.magic raw.magic)
  else if raw.version ≠ Chunk.currentVersion.toNat then .error (.version raw.version)
  else do
    let constants ← Wire.values [] raw.constants
    let c : Chunk := ⟨currentVersion, raw.code.toArray, raw.lines.toArray, constants.toArray⟩
    match c.fault? with
    | some f => .error (.fault f)
    | none => .ok c

end ExprMachine
